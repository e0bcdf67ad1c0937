import Mathlib
import SigV4.Proofs.Stamp
/-!
Dates and times as texts. Every day has a date of its own, and every date a text of its own, so the
text of a date names a day and the text of a time stamp a second; a leap second is told from the
second before it by its number, which no other second has.
-/
namespace SigV4.Calendar

def yearStart (year : Int) : Int := 365 * year + year / 4 - year / 100

def yearOfEra (day : Int) : Int := (day - day / 1460 + day / 36524 - day / 146096) / 365

theorem yearOfEra_mono {left right : Int} (ordered : left ≤ right) :
    yearOfEra left ≤ yearOfEra right := by
  unfold yearOfEra
  have years : left - left / 1460 ≤ right - right / 1460 := by omega
  have centuries : left / 36524 - left / 146096 ≤ right / 36524 - right / 146096 := by omega
  omega

/-- An era has 400 years, so where each of them begins and ends can be tried. -/
theorem yearOfEra_tried : ∀ year : Fin 400,
    yearOfEra (yearStart year.val) = year.val ∧
      yearOfEra (yearStart (year.val + 1) - 1) = year.val := by
  decide +kernel

theorem yearOfEra_ends {year : Int} (low : 0 ≤ year) (high : year < 400) :
    yearOfEra (yearStart year) = year ∧ yearOfEra (yearStart (year + 1) - 1) = year := by
  have tried := yearOfEra_tried ⟨year.toNat, by omega⟩
  rwa [Int.toNat_of_nonneg low] at tried

section Era

variable {day : Int} (low : 0 ≤ day) (high : day < 146097)
include low high

theorem yearOfEra_bounds : 0 ≤ yearOfEra day ∧ yearOfEra day < 400 := by
  unfold yearOfEra
  omega

-- A day before its year would lie in an earlier one, since later days lie in no earlier years.
theorem yearStart_le : yearStart (yearOfEra day) ≤ day := by
  obtain ⟨first, last⟩ := yearOfEra_bounds low high
  apply Int.not_lt.mp
  intro before
  rcases Int.lt_or_eq_of_le first with later | zero
  · have inside : 0 ≤ yearOfEra day - 1 := by omega
    have ends := (yearOfEra_ends inside (by omega)).2
    rw [Int.sub_add_cancel] at ends
    have early := yearOfEra_mono (Int.le_sub_one_of_lt before)
    omega
  · rw [← zero] at before
    simp only [yearStart] at before
    omega

theorem le_yearEnd : day ≤ yearStart (yearOfEra day) + 365 := by
  obtain ⟨first, last⟩ := yearOfEra_bounds low high
  apply Int.not_lt.mp
  intro after
  rcases Int.lt_or_le (yearOfEra day + 1) 400 with next | final
  · have starts := (yearOfEra_ends (by omega) next).1
    have length : yearStart (yearOfEra day + 1) ≤ yearStart (yearOfEra day) + 366 := by
      unfold yearStart
      omega
    have late := yearOfEra_mono (show yearStart (yearOfEra day + 1) ≤ day by omega)
    omega
  · have year : yearOfEra day = 399 := by omega
    rw [year] at after
    simp only [yearStart] at after
    omega

end Era

/-- A day of a year that begins on the first of March. -/
def dateInYear (year dayOfYear : Int) : Date :=
  let march := (5 * dayOfYear + 2) / 153
  let month := if march < 10 then march + 3 else march - 9
  { year := year + (if month ≤ 2 then 1 else 0)
    month := month.toNat
    day := (dayOfYear - (153 * march + 2) / 5 + 1).toNat }

theorem dateOfDay_eq (day : Int) :
    dateOfDay day =
      dateInYear
        (yearOfEra ((day + 719468) % 146097) + (day + 719468) / 146097 * 400)
        ((day + 719468) % 146097 - yearStart (yearOfEra ((day + 719468) % 146097))) :=
  rfl

def Date.toDay (date : Date) : Int :=
  let year := if date.month ≤ 2 then date.year - 1 else date.year
  let march : Int := if date.month ≤ 2 then date.month + 9 else date.month - 3
  365 * year + year / 4 - year / 100 + year / 400 + (153 * march + 2) / 5 + date.day - 719469

structure Date.Short (date : Date) : Prop where
  month : date.month < 100
  day : date.day < 100

-- The months from March to December belong to the year that has begun, the other two to the next.
theorem dateInYear_spec (year : Int) {dayOfYear : Int} (low : 0 ≤ dayOfYear)
    (high : dayOfYear ≤ 365) :
    (dateInYear year dayOfYear).Short ∧
      (dateInYear year dayOfYear).toDay =
        365 * year + year / 4 - year / 100 + year / 400 + dayOfYear - 719468 := by
  by_cases spring : (5 * dayOfYear + 2) / 153 < 10
  · have month : ¬ (5 * dayOfYear + 2) / 153 + 3 ≤ 2 := by omega
    have number : ¬ ((5 * dayOfYear + 2) / 153 + 3).toNat ≤ 2 := by omega
    refine ⟨⟨?_, ?_⟩, ?_⟩
    all_goals simp only [dateInYear, Date.toDay, if_pos spring, if_neg month, if_neg number]
    all_goals omega
  · have month : (5 * dayOfYear + 2) / 153 - 9 ≤ 2 := by omega
    have number : ((5 * dayOfYear + 2) / 153 - 9).toNat ≤ 2 := by omega
    refine ⟨⟨?_, ?_⟩, ?_⟩
    all_goals simp only [dateInYear, Date.toDay, if_neg spring, if_pos month, if_pos number]
    all_goals omega

theorem dateOfDay_spec (day : Int) :
    (dateOfDay day).Short ∧ (dateOfDay day).toDay = day := by
  have low : 0 ≤ (day + 719468) % 146097 := by omega
  have high : (day + 719468) % 146097 < 146097 := by omega
  obtain ⟨first, last⟩ := yearOfEra_bounds low high
  have starts := yearStart_le low high
  have ends := le_yearEnd low high
  rw [dateOfDay_eq]
  obtain ⟨short, toDay⟩ := dateInYear_spec
    (yearOfEra ((day + 719468) % 146097) + (day + 719468) / 146097 * 400)
    (Int.sub_nonneg_of_le starts) (by omega)
  refine ⟨short, toDay.trans ?_⟩
  generalize yearOfEra ((day + 719468) % 146097) = year at *
  simp only [yearStart]
  omega

theorem dateOfDay_injective {left right : Int} (same : dateOfDay left = dateOfDay right) :
    left = right :=
  (dateOfDay_spec left).2.symm.trans ((congrArg Date.toDay same).trans (dateOfDay_spec right).2)

/-- Zeros in front do not change what the digits say. -/
theorem ofDigitChars_padded (width number : Nat) :
    Nat.ofDigitChars 10 (padded width number).toList 0 = number := by
  rw [padded, String.toList_ofList, Nat.ofDigitChars_append, Nat.ofDigitChars_replicate_zero,
    Nat.mul_zero, Nat.ofDigitChars_ten_toDigits]

theorem padded_injective {width left right : Nat} (same : padded width left = padded width right) :
    left = right := by
  rw [← ofDigitChars_padded width left, same, ofDigitChars_padded]

theorem length_padded {width number : Nat} (positive : 0 < width) (short : number < 10 ^ width) :
    (padded width number).toList.length = width := by
  have digits := (Nat.length_toDigits_le_iff (by decide) positive).mpr short
  rw [padded, String.toList_ofList, List.length_append, List.length_replicate]
  exact Nat.sub_add_cancel digits

/-- The digits of a year, whatever stands in front of them. -/
theorem filter_yearText (year : Int) :
    (yearText year).toList.filter Char.isDigit = (padded 4 year.natAbs).toList := by
  have digits : (padded 4 year.natAbs).toList.filter Char.isDigit =
      (padded 4 year.natAbs).toList :=
    List.filter_eq_self.mpr fun _ => isDigit_of_mem_toList
  have sign : ∀ mark : String, mark.toList.filter Char.isDigit = [] →
      (mark ++ padded 4 year.natAbs).toList.filter Char.isDigit =
        (padded 4 year.natAbs).toList := by
    intro mark none
    rw [String.toList_append, List.filter_append, none, digits, List.nil_append]
  unfold yearText
  split
  · exact sign "-" (by simp +decide)
  split
  · exact digits
  · exact sign "+" (by simp +decide)

theorem minus_mem_yearText {year : Int} : '-' ∈ (yearText year).toList ↔ year < 0 := by
  have digits : '-' ∉ (padded 4 year.natAbs).toList := fun member =>
    absurd (isDigit_of_mem_toList member) (by decide)
  unfold yearText
  split
  · next before => simp [before]
  split
  · next before _ => simp [before, digits]
  · next before _ => simp [before, digits]

theorem yearText_injective {left right : Int} (same : yearText left = yearText right) :
    left = right := by
  have digits : padded 4 left.natAbs = padded 4 right.natAbs := by
    rw [← String.toList_inj, ← filter_yearText, ← filter_yearText, same]
  have signs : left < 0 ↔ right < 0 := by
    rw [← minus_mem_yearText, ← minus_mem_yearText, same]
  have sizes := padded_injective digits
  omega

theorem pair_injective {first second : Nat} {left right : String}
    (firstShort : first < 100) (secondShort : second < 100)
    (same : left ++ padded 2 first = right ++ padded 2 second) :
    left = right ∧ first = second := by
  rw [← String.toList_inj, String.toList_append, String.toList_append] at same
  obtain ⟨front, digits⟩ := List.append_inj' same
    ((length_padded (by decide) firstShort).trans (length_padded (by decide) secondShort).symm)
  exact ⟨String.toList_inj.mp front, padded_injective (String.toList_inj.mp digits)⟩

theorem compact_injective {left right : Date} (leftShort : left.Short) (rightShort : right.Short)
    (same : left.compact = right.compact) : left = right := by
  obtain ⟨front, day⟩ := pair_injective leftShort.day rightShort.day same
  obtain ⟨year, month⟩ := pair_injective leftShort.month rightShort.month front
  show (⟨left.year, left.month, left.day⟩ : Date) = ⟨right.year, right.month, right.day⟩
  rw [yearText_injective year, month, day]

end SigV4.Calendar

namespace SigV4.Instant
open Calendar

variable {left right : Instant}

/-- The text of a date names a day. -/
theorem dateText_eq_iff : left.dateText = right.dateText ↔ left.day = right.day := by
  constructor
  · intro same
    exact dateOfDay_injective
      (compact_injective (dateOfDay_spec left.day).1 (dateOfDay_spec right.day).1 same)
  · intro same
    rw [dateText, dateText, same]

/-- What the last two digits of a time say; only a leap second is number 60. -/
def secondShown (instant : Instant) : Nat :=
  instant.secondOfDay % 60 + if instant.isLeap then 1 else 0

theorem secondShown_cases (instant : Instant) :
    (instant.isLeap = true ∧ instant.secondShown = 60 ∧ instant.secondOfDay % 60 = 59) ∨
      (instant.isLeap = false ∧ instant.secondShown = instant.secondOfDay % 60) := by
  cases leap : instant.isLeap with
  | true =>
      have last := instant.leap_at_end (of_decide_eq_true leap)
      have second : instant.secondOfDay % 60 = 59 := by
        unfold secondOfDay
        omega
      exact Or.inl ⟨rfl, by rw [secondShown, second, leap]; rfl, second⟩
  | false => exact Or.inr ⟨rfl, by rw [secondShown, leap]; rfl⟩

theorem timeText_eq_iff :
    left.timeText = right.timeText ↔
      left.secondOfDay = right.secondOfDay ∧ left.isLeap = right.isLeap := by
  constructor
  · intro same
    have shown : ∀ instant : Instant, instant.secondShown < 100 ∧
        instant.secondOfDay / 60 % 60 < 100 := by
      intro instant
      rcases instant.secondShown_cases with ⟨_, number, _⟩ | ⟨_, number⟩ <;> omega
    obtain ⟨front, seconds⟩ := pair_injective (shown left).1 (shown right).1 same
    obtain ⟨hours, minutes⟩ := pair_injective (shown left).2 (shown right).2 front
    have hours := padded_injective hours
    rcases left.secondShown_cases with ⟨leap, number, last⟩ | ⟨plain, number⟩ <;>
      rcases right.secondShown_cases with ⟨otherLeap, otherNumber, otherLast⟩ |
        ⟨otherPlain, otherNumber⟩
    · exact ⟨by omega, leap.trans otherLeap.symm⟩
    · omega
    · omega
    · exact ⟨by omega, plain.trans otherPlain.symm⟩
  · rintro ⟨second, leap⟩
    rw [timeText, timeText, second, leap]

/-- The text of a time stamp names a second, and says whether it is a leap second. -/
theorem datetimeText_eq_iff :
    left.datetimeText = right.datetimeText ↔
      left.seconds = right.seconds ∧ left.isLeap = right.isLeap := by
  have parts : left.seconds = right.seconds ↔
      left.day = right.day ∧ left.secondOfDay = right.secondOfDay := by
    unfold day secondOfDay
    omega
  rw [parts, and_assoc, ← dateText_eq_iff, ← timeText_eq_iff]
  constructor
  · intro same
    have octets := congrArg Bytes.ofText same
    rw [ofText_datetimeText, ofText_datetimeText] at octets
    obtain ⟨date, rest⟩ := Form.field_unique (not_mem_dateText rfl) (not_mem_dateText rfl) octets
    exact ⟨Bytes.ofText_injective date, Bytes.ofText_injective (List.append_cancel_right rest)⟩
  · rintro ⟨date, time⟩
    rw [datetimeText, datetimeText, date, time]

end SigV4.Instant
