import SigV4.Instant
import SigV4.Proofs.AsciiText
import SigV4.Proofs.Pieces
/-!
The octets of dates and times. A date is digits and at most a sign, so the letter that divides a
time stamp stands in none: the date in front of a time stamp is the date of its instant.
-/
namespace SigV4.Calendar

def isDateByte (octet : UInt8) : Bool :=
  Bytes.isDigit octet || Bytes.isOneOf ['-', '+'] octet

def isStampByte (octet : UInt8) : Bool := isDateByte octet || Bytes.isOneOf ['T', 'Z'] octet

theorem isDigit_of_character {character : Char} (digit : character.isDigit = true) :
    character.toNat < 128 ∧ Bytes.isDigit (UInt8.ofNat character.toNat) = true := by
  simp only [Char.isDigit, Bool.and_eq_true, decide_eq_true_eq, ge_iff_le] at digit
  have low : 48 ≤ character.toNat := UInt32.le_iff_toNat_le.mp digit.1
  have high : character.toNat ≤ 57 := UInt32.le_iff_toNat_le.mp digit.2
  have width : (UInt8.ofNat character.toNat).toNat = character.toNat := by
    rw [UInt8.toNat_ofNat']
    omega
  refine ⟨by omega, ?_⟩
  rw [Bytes.isDigit, Bool.and_eq_true, decide_eq_true_eq, decide_eq_true_eq,
    UInt8.le_iff_toNat_le, UInt8.le_iff_toNat_le, width]
  exact ⟨low, high⟩

theorem isDigit_of_mem_toList {width number : Nat} {character : Char}
    (member : character ∈ (padded width number).toList) : character.isDigit = true := by
  rw [padded, String.toList_ofList] at member
  rcases List.mem_append.mp member with filled | written
  · exact (List.mem_replicate.mp filled).2 ▸ rfl
  · exact Nat.isDigit_of_mem_toDigits (by decide) (by decide) written

theorem isDigit_of_mem_padded {width number : Nat} {octet : UInt8}
    (member : octet ∈ Bytes.ofText (padded width number)) : Bytes.isDigit octet = true := by
  rw [← String.ofList_toList (s := padded width number), Bytes.ofText_ofList_ascii fun _ inside =>
    (isDigit_of_character (isDigit_of_mem_toList inside)).1] at member
  obtain ⟨character, inside, rfl⟩ := List.mem_map.mp member
  exact (isDigit_of_character (isDigit_of_mem_toList inside)).2

theorem isDateByte_of_isDigit {octet : UInt8} (digit : Bytes.isDigit octet = true) :
    isDateByte octet = true := by
  rw [isDateByte, digit, Bool.true_or]

theorem isDateByte_of_mem_yearText {year : Int} {octet : UInt8}
    (member : octet ∈ Bytes.ofText (yearText year)) : isDateByte octet = true := by
  unfold yearText at member
  split at member
  · rcases List.mem_append.mp (Bytes.ofText_append _ _ ▸ member) with sign | digits
    · exact List.mem_singleton.mp sign ▸ rfl
    · exact isDateByte_of_isDigit (isDigit_of_mem_padded digits)
  split at member
  · exact isDateByte_of_isDigit (isDigit_of_mem_padded member)
  · rcases List.mem_append.mp (Bytes.ofText_append _ _ ▸ member) with sign | digits
    · exact List.mem_singleton.mp sign ▸ rfl
    · exact isDateByte_of_isDigit (isDigit_of_mem_padded digits)

end SigV4.Calendar

namespace SigV4.Instant

theorem isDateByte_of_mem_dateText {instant : Instant} {octet : UInt8}
    (member : octet ∈ Bytes.ofText instant.dateText) : Calendar.isDateByte octet = true := by
  simp only [dateText, Calendar.Date.compact, Bytes.ofText_append, List.mem_append] at member
  rcases member with (year | month) | day
  · exact Calendar.isDateByte_of_mem_yearText year
  · exact Calendar.isDateByte_of_isDigit (Calendar.isDigit_of_mem_padded month)
  · exact Calendar.isDateByte_of_isDigit (Calendar.isDigit_of_mem_padded day)

theorem isDigit_of_mem_timeText {instant : Instant} {octet : UInt8}
    (member : octet ∈ Bytes.ofText instant.timeText) : Bytes.isDigit octet = true := by
  simp only [timeText, Bytes.ofText_append, List.mem_append] at member
  rcases member with (hour | minute) | second
  · exact Calendar.isDigit_of_mem_padded hour
  · exact Calendar.isDigit_of_mem_padded minute
  · exact Calendar.isDigit_of_mem_padded second

-- What is no date octet stands in no date; used for the separators of scopes and time stamps.
theorem not_mem_dateText {instant : Instant} {octet : UInt8}
    (other : Calendar.isDateByte octet = false) : octet ∉ Bytes.ofText instant.dateText :=
  Bytes.not_mem_of_class (fun _ member => isDateByte_of_mem_dateText member) other

theorem ofText_datetimeText (instant : Instant) :
    Bytes.ofText instant.datetimeText = Bytes.ofText instant.dateText ++
      'T'.toUInt8 :: (Bytes.ofText instant.timeText ++ ['Z'.toUInt8]) := by
  have mark : Bytes.ofText "T" = ['T'.toUInt8] := rfl
  have zone : Bytes.ofText "Z" = ['Z'.toUInt8] := rfl
  simp [datetimeText, mark, zone]

/-- The date of a time stamp is what stands before its letter. -/
theorem cut_datetimeText (instant : Instant) :
    (Form.cut 'T'.toUInt8 (Bytes.ofText instant.datetimeText)).1 =
      Bytes.ofText instant.dateText := by
  rw [ofText_datetimeText, Form.cut_joined (not_mem_dateText rfl)]

theorem isStampByte_of_mem_datetimeText {instant : Instant} {octet : UInt8}
    (member : octet ∈ Bytes.ofText instant.datetimeText) : Calendar.isStampByte octet = true := by
  rw [ofText_datetimeText] at member
  rcases List.mem_append.mp member with date | more
  · rw [Calendar.isStampByte, isDateByte_of_mem_dateText date, Bool.true_or]
  rcases List.mem_cons.mp more with letter | more
  · exact letter ▸ rfl
  rcases List.mem_append.mp more with time | zone
  · have digit := isDigit_of_mem_timeText time
    rw [Calendar.isStampByte, Calendar.isDateByte_of_isDigit digit, Bool.true_or]
  · exact List.mem_singleton.mp zone ▸ rfl

theorem lineFeed_not_mem_datetimeText (instant : Instant) :
    '\n'.toUInt8 ∉ Bytes.ofText instant.datetimeText :=
  Bytes.not_mem_of_class (fun _ => isStampByte_of_mem_datetimeText) rfl

end SigV4.Instant
