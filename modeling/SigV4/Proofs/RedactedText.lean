import SigV4.Redact
import Mathlib.Data.List.DropRight
import Mathlib.Data.String.Basic
/-!
What is shown of a secret. Cut at octets, it is never cut inside a character nor beyond an end; and
two secrets are shown alike just if they are both empty or both not, and both legible or both not,
and the legible ones have the same three octets at either end.
-/
namespace SigV4.Redact

variable {secret left right first middle last : String} {octets : Nat}

theorem front?_append (first rest : List Char) :
    front? (String.utf8Len first) (first ++ rest) = some first := by
  induction first with
  | nil => cases rest <;> rfl
  | cons character others ih =>
      have wide : String.utf8Len others + character.utf8Size ≠ 0 :=
        Nat.ne_of_gt (Nat.add_pos_right _ character.utf8Size_pos)
      rw [List.cons_append, String.utf8Len_cons, front?, if_neg wide,
        if_pos (Nat.le_add_left _ _), Nat.add_sub_cancel, ih]
      rfl

theorem of_front? {characters first : List Char} (found : front? octets characters = some first) :
    ∃ rest, characters = first ++ rest ∧ String.utf8Len first = octets := by
  induction characters generalizing octets first with
  | nil =>
      rw [front?] at found
      split at found
      next nothing => exact ⟨[], by simp [← Option.some.inj found, nothing]⟩
      next => contradiction
  | cons character others ih =>
      rw [front?] at found
      split at found
      next nothing => exact ⟨character :: others, by simp [← Option.some.inj found, nothing]⟩
      next =>
        split at found
        next fits =>
          obtain ⟨more, next, rfl⟩ := Option.map_eq_some_iff.mp found
          obtain ⟨rest, rfl, size⟩ := ih next
          refine ⟨rest, rfl, ?_⟩
          rw [String.utf8Len_cons, size, Nat.sub_add_cancel fits]
        next => contradiction

theorem front?_eq_some_iff {characters first : List Char} :
    front? octets characters = some first ↔
      ∃ rest, characters = first ++ rest ∧ String.utf8Len first = octets := by
  constructor
  · exact of_front?
  · rintro ⟨rest, rfl, rfl⟩
    exact front?_append first rest

theorem front?_toList {characters : List Char} :
    front? octets secret.toList = some characters ↔
      ∃ rest, secret = String.ofList characters ++ rest ∧
        (String.ofList characters).utf8ByteSize = octets := by
  rw [front?_eq_some_iff, String.utf8ByteSize_ofList]
  constructor
  · rintro ⟨rest, whole, size⟩
    exact ⟨String.ofList rest, by simp [← String.toList_inj, whole], size⟩
  · rintro ⟨rest, rfl, size⟩
    exact ⟨rest.toList, by simp, size⟩

theorem front?_reverse {characters : List Char} :
    front? octets secret.toList.reverse = some characters ↔
      ∃ rest, secret = rest ++ String.ofList characters.reverse ∧
        (String.ofList characters.reverse).utf8ByteSize = octets := by
  rw [front?_eq_some_iff, String.utf8ByteSize_ofList, String.utf8Len_reverse]
  constructor
  · rintro ⟨rest, whole, size⟩
    have turned := List.reverse_eq_iff.mp whole
    exact ⟨String.ofList rest.reverse, by simp [← String.toList_inj, turned], size⟩
  · rintro ⟨rest, rfl, size⟩
    exact ⟨rest.toList.reverse, by simp, size⟩

/-- The first so many octets of a text are whole characters. -/
abbrev Boundary (secret : String) (octets : Nat) : Prop :=
  (⟨octets⟩ : String.Pos.Raw).IsValid secret

/-- Both sides of a cut; none if it runs through a character or lies beyond the end. -/
def cut? (octets : Nat) (secret : String) : Option (String × String) :=
  if boundary : Boundary secret octets then
    some ((secret.sliceTo (secret.pos ⟨octets⟩ boundary)).copy,
      (secret.sliceFrom (secret.pos ⟨octets⟩ boundary)).copy)
  else none

theorem boundary_iff : Boundary secret octets ↔
    ∃ first last, secret = first ++ last ∧ first.utf8ByteSize = octets := by
  rw [Boundary, String.Pos.Raw.isValid_iff_exists_append]
  simp only [String.Pos.Raw.ext_iff, String.byteIdx_rawEndPos, eq_comm]

theorem cut?_append (first last : String) :
    cut? first.utf8ByteSize (first ++ last) = some (first, last) := by
  have boundary : Boundary (first ++ last) first.utf8ByteSize :=
    boundary_iff.mpr ⟨first, last, rfl, rfl⟩
  have splits : (String.pos (first ++ last) ⟨first.utf8ByteSize⟩ boundary).Splits first last :=
    ⟨rfl, rfl⟩
  obtain ⟨before, after⟩ := (String.Pos.splits _).eq splits
  rw [cut?, dif_pos boundary, before, after]

/-- A text is cut into two in one way only. -/
theorem append_inj {before after : String} (same : first ++ last = before ++ after)
    (sizes : first.utf8ByteSize = before.utf8ByteSize) : first = before ∧ last = after := by
  have cuts := cut?_append first last
  rw [same, sizes, cut?_append] at cuts
  exact Prod.mk.inj (Option.some.inj cuts.symm)

structure Legible (secret : String) : Prop where
  long : 12 ≤ secret.utf8ByteSize
  front : Boundary secret 3
  back : Boundary secret (secret.utf8ByteSize - 3)

instance (secret : String) : Decidable (Legible secret) :=
  decidable_of_iff
    (12 ≤ secret.utf8ByteSize ∧ Boundary secret 3 ∧ Boundary secret (secret.utf8ByteSize - 3))
    ⟨fun ⟨long, front, back⟩ => ⟨long, front, back⟩,
      fun legible => ⟨legible.long, legible.front, legible.back⟩⟩

structure Framed (secret first middle last : String) : Prop where
  whole : secret = first ++ middle ++ last
  front : first.utf8ByteSize = 3
  back : last.utf8ByteSize = 3
  long : 12 ≤ secret.utf8ByteSize

theorem Framed.sizes (framed : Framed secret first middle last) :
    secret.utf8ByteSize - 3 = (first ++ middle).utf8ByteSize := by
  rw [framed.whole, String.utf8ByteSize_append, framed.back, Nat.add_sub_cancel]

theorem Framed.legible (framed : Framed secret first middle last) : Legible secret where
  long := framed.long
  front := boundary_iff.mpr
    ⟨first, middle ++ last, framed.whole.trans String.append_assoc, framed.front⟩
  back := boundary_iff.mpr ⟨first ++ middle, last, framed.whole, framed.sizes.symm⟩

-- At least nine octets stand before the cut near the end, so it lies behind the one at the front.
theorem Legible.framed (legible : Legible secret) :
    ∃ first middle last, Framed secret first middle last := by
  obtain ⟨first, rest, opened, front⟩ := boundary_iff.mp legible.front
  obtain ⟨most, last, closed, size⟩ := boundary_iff.mp legible.back
  have long := legible.long
  have total := congrArg String.utf8ByteSize closed
  rw [String.utf8ByteSize_append] at total
  have characters := congrArg String.toList (opened.symm.trans closed)
  rw [String.toList_append, String.toList_append] at characters
  rcases List.append_eq_append_iff.mp characters with ⟨middle, between, _⟩ | ⟨beyond, longer, _⟩
  · have most_eq : most = first ++ String.ofList middle := by
      rw [← String.toList_inj, String.toList_append, String.toList_ofList, between]
    refine ⟨first, String.ofList middle, last, most_eq ▸ closed, front, ?_, long⟩
    omega
  · have sizes := congrArg String.utf8Len longer
    rw [String.utf8Len_append, String.utf8Len_toList, String.utf8Len_toList] at sizes
    omega

theorem ne_empty_of_long (long : 12 ≤ secret.utf8ByteSize) : secret ≠ "" := by
  rintro rfl
  contradiction

theorem text_empty : text "" = "EMPTY" := rfl

theorem text_framed (framed : Framed secret first middle last) :
    text secret = first ++ "***" ++ last := by
  have front : front? shown secret.toList = some first.toList :=
    front?_toList.mpr
      ⟨middle ++ last, by simp [framed.whole, String.append_assoc], by simp [framed.front, shown]⟩
  have back : front? shown secret.toList.reverse = some last.toList.reverse :=
    front?_reverse.mpr ⟨first ++ middle, by simp [framed.whole], by simp [framed.back, shown]⟩
  have long : ¬secret.utf8ByteSize < shortest := Nat.not_lt.mpr framed.long
  rw [text, if_neg (ne_empty_of_long framed.long), if_neg long, front, back]
  simp only [String.ofList_toList, List.reverse_reverse]

theorem text_illegible (nonempty : secret ≠ "") (illegible : ¬Legible secret) :
    text secret = "***" := by
  rw [text, if_neg nonempty]
  split
  · rfl
  · next long =>
      split
      next first last front back =>
        obtain ⟨rest, opened, size⟩ := front?_toList.mp front
        obtain ⟨most, closed, width⟩ := front?_reverse.mp back
        refine absurd ⟨Nat.not_lt.mp long, ?_, ?_⟩ illegible
        · exact boundary_iff.mpr ⟨_, rest, opened, size⟩
        · refine boundary_iff.mpr ⟨most, _, closed, ?_⟩
          have total := congrArg String.utf8ByteSize closed
          rw [String.utf8ByteSize_append, width] at total
          exact Nat.eq_sub_of_add_eq total.symm
      next => rfl

def fromEnd? (size octets : Nat) : Option Nat :=
  if octets ≤ size then some (size - octets) else none

/-- A secret as it may be shown, cut at octets. The end is counted, and either cut made, only after
the checks before it. -/
def sliced? (secret : String) : Option String :=
  if secret.utf8ByteSize = 0 then some "EMPTY"
  else if secret.utf8ByteSize < 12 ∨ ¬Boundary secret 3 then some "***"
  else do
    let start ← fromEnd? secret.utf8ByteSize 3
    if Boundary secret start then
      let (first, _) ← cut? 3 secret
      let (_, last) ← cut? start secret
      return first ++ "***" ++ last
    else return "***"

theorem fromEnd?_of_le {size : Nat} (inside : octets ≤ size) :
    fromEnd? size octets = some (size - octets) :=
  if_pos inside

theorem sliced?_framed (framed : Framed secret first middle last) :
    sliced? secret = some (first ++ "***" ++ last) := by
  have legible := framed.legible
  have nonempty : ¬secret.utf8ByteSize = 0 := by
    have long := legible.long
    omega
  have allowed : ¬(secret.utf8ByteSize < 12 ∨ ¬Boundary secret 3) := by
    rintro (short | inside)
    · exact Nat.not_lt.mpr legible.long short
    · exact inside legible.front
  have start := fromEnd?_of_le (Nat.le_trans (by decide : 3 ≤ 12) legible.long)
  have front : cut? 3 secret = some (first, middle ++ last) := by
    rw [← framed.front, framed.whole, String.append_assoc, cut?_append]
  have back : cut? (secret.utf8ByteSize - 3) secret = some (first ++ middle, last) := by
    rw [framed.sizes, framed.whole, cut?_append]
  rw [sliced?, if_neg nonempty, if_neg allowed, start, Option.bind_eq_bind, Option.bind_some,
    if_pos legible.back, front, back]
  rfl

theorem sliced?_illegible (nonempty : secret ≠ "") (illegible : ¬Legible secret) :
    sliced? secret = some "***" := by
  rw [sliced?, if_neg (mt String.utf8ByteSize_eq_zero_iff.mp nonempty)]
  split
  · rfl
  · next allowed =>
      obtain ⟨long, front⟩ := not_or.mp allowed
      have start := fromEnd?_of_le (Nat.le_trans (by decide : 3 ≤ 12) (Nat.not_lt.mp long))
      have back : ¬Boundary secret (secret.utf8ByteSize - 3) := fun back =>
        illegible ⟨Nat.not_lt.mp long, Decidable.not_not.mp front, back⟩
      rw [start, Option.bind_eq_bind, Option.bind_some, if_neg back]
      rfl

/-- Cutting at octets is always defined, and gives the text that is shown. -/
theorem sliced?_eq (secret : String) : sliced? secret = some (text secret) := by
  by_cases empty : secret = ""
  · subst empty
    rfl
  · by_cases legible : Legible secret
    · obtain ⟨first, middle, last, framed⟩ := legible.framed
      rw [sliced?_framed framed, text_framed framed]
    · rw [sliced?_illegible empty legible, text_illegible empty legible]

example : sliced? "€abcdef€" = some "€***€" := by decide

example : sliced? "ab€cdefghijk" = some "***" := by decide

/-- The length of a text that is shown tells an empty secret and a legible one from all others. -/
theorem size_text (secret : String) :
    (text secret).utf8ByteSize = if secret = "" then 5 else if Legible secret then 9 else 3 := by
  split
  next empty =>
    subst empty
    rfl
  next nonempty =>
    split
    next legible =>
      obtain ⟨first, middle, last, framed⟩ := legible.framed
      have stars : "***".utf8ByteSize = 3 := rfl
      rw [text_framed framed, String.utf8ByteSize_append, String.utf8ByteSize_append, framed.front,
        framed.back, stars]
    next illegible =>
      rw [text_illegible nonempty illegible]
      rfl

theorem size_text_empty : (text secret).utf8ByteSize = 5 ↔ secret = "" := by
  rw [size_text]
  split
  next empty => simp [empty]
  next nonempty => split <;> simp [nonempty]

theorem size_text_legible : (text secret).utf8ByteSize = 9 ↔ Legible secret := by
  rw [size_text]
  split
  next empty =>
    subst empty
    decide
  next nonempty => split <;> simp [*]

theorem Framed.ends_of_text {front between back : String} (framed : Framed left first middle last)
    (other : Framed right front between back) (same : text left = text right) :
    first = front ∧ last = back := by
  rw [text_framed framed, text_framed other, String.append_assoc, String.append_assoc] at same
  obtain ⟨fronts, rest⟩ := append_inj same (framed.front.trans other.front.symm)
  exact ⟨fronts, (append_inj rest rfl).2⟩

theorem Framed.take (framed : Framed secret first middle last) :
    (Bytes.ofText secret).take 3 = Bytes.ofText first := by
  rw [framed.whole, String.append_assoc, Bytes.ofText_append]
  exact List.take_left' ((Bytes.length_ofText first).trans framed.front)

theorem Framed.rtake (framed : Framed secret first middle last) :
    (Bytes.ofText secret).rtake 3 = Bytes.ofText last := by
  rw [framed.whole, Bytes.ofText_append, List.rtake, List.length_append, Bytes.length_ofText last,
    framed.back, Nat.add_sub_cancel, List.drop_left]

structure Lookalike (left right : String) : Prop where
  blank : left = "" ↔ right = ""
  legible : Legible left ↔ Legible right
  front : Legible left → Legible right → (Bytes.ofText left).take 3 = (Bytes.ofText right).take 3
  back : Legible left → Legible right → (Bytes.ofText left).rtake 3 = (Bytes.ofText right).rtake 3

theorem Lookalike.of_text (same : text left = text right) : Lookalike left right where
  blank := by rw [← size_text_empty, ← size_text_empty, same]
  legible := by rw [← size_text_legible, ← size_text_legible, same]
  front one other := by
    obtain ⟨first, middle, last, framed⟩ := one.framed
    obtain ⟨front, between, back, again⟩ := other.framed
    rw [framed.take, again.take, (framed.ends_of_text again same).1]
  back one other := by
    obtain ⟨first, middle, last, framed⟩ := one.framed
    obtain ⟨front, between, back, again⟩ := other.framed
    rw [framed.rtake, again.rtake, (framed.ends_of_text again same).2]

theorem Lookalike.text_eq (alike : Lookalike left right) : text left = text right := by
  by_cases empty : left = ""
  · rw [empty, alike.blank.mp empty]
  · have nonempty := mt alike.blank.mpr empty
    by_cases legible : Legible left
    · obtain ⟨first, middle, last, framed⟩ := legible.framed
      obtain ⟨front, between, back, other⟩ := (alike.legible.mp legible).framed
      have fronts := alike.front legible other.legible
      have backs := alike.back legible other.legible
      rw [framed.take, other.take] at fronts
      rw [framed.rtake, other.rtake] at backs
      rw [text_framed framed, text_framed other, Bytes.ofText_injective fronts,
        Bytes.ofText_injective backs]
    · rw [text_illegible empty legible, text_illegible nonempty (mt alike.legible.mpr legible)]

/-- What is shown of two secrets is the same just if all that it is made of is the same. -/
theorem text_eq_iff : text left = text right ↔ Lookalike left right :=
  ⟨Lookalike.of_text, Lookalike.text_eq⟩

instance (left right : String) : Decidable (Lookalike left right) :=
  decidable_of_iff _ text_eq_iff

example : Lookalike "key of the first guest" "keyring in the chest" := by decide

theorem head?_stars (rest : String) : ("***" ++ rest).toList.head? = some '*' := by simp

theorem star_after {opening rest : String} (legible : Legible secret)
    (opened : text secret = opening ++ rest) (size : opening.utf8ByteSize = 3) :
    rest.toList.head? = some '*' := by
  obtain ⟨first, middle, last, framed⟩ := legible.framed
  rw [text_framed framed, String.append_assoc] at opened
  rw [← (append_inj opened (framed.front.trans size.symm)).2, head?_stars]

section Tail

variable {tail : String}

theorem tail_of_empty (longer : text secret = "EMPTY" ++ tail) : tail = "" := by
  have illegible : ¬Legible secret := by
    intro legible
    have opened : text secret = "EMP" ++ ("TY" ++ tail) := by
      rw [longer, ← String.append_assoc]
      rfl
    have fourth := star_after legible opened rfl
    simp at fourth
  have sizes := congrArg String.utf8ByteSize longer
  have opening : "EMPTY".utf8ByteSize = 5 := rfl
  rw [size_text, if_neg illegible, String.utf8ByteSize_append, opening] at sizes
  refine String.utf8ByteSize_eq_zero_iff.mp ?_
  split at sizes <;> omega

theorem tail_of_legible (legible : Legible left) (longer : text right = text left ++ tail) :
    tail = "" := by
  have sizes := congrArg String.utf8ByteSize longer
  rw [String.utf8ByteSize_append, size_text_legible.mpr legible, size_text] at sizes
  refine String.utf8ByteSize_eq_zero_iff.mp ?_
  split_ifs at sizes <;> omega

theorem tail_of_stars (longer : text secret = "***" ++ tail)
    (apart : tail.toList.head? ≠ some '*') : tail = "" := by
  have nonempty : secret ≠ "" := by
    rintro rfl
    simp [text_empty, ← String.toList_inj] at longer
  have illegible : ¬Legible secret := fun legible => apart (star_after legible longer rfl)
  rw [text_illegible nonempty illegible] at longer
  exact (append_inj (String.append_empty.trans longer) rfl).2.symm

/-- What is shown of one secret starts with what is shown of another only where a star follows: of
`EMPTY` the fourth octet is none, and after `***` the fourth is one. -/
theorem tail_of_text (longer : text right = text left ++ tail)
    (apart : tail.toList.head? ≠ some '*') : tail = "" := by
  by_cases empty : left = ""
  · exact tail_of_empty (empty ▸ longer)
  · by_cases legible : Legible left
    · exact tail_of_legible legible longer
    · exact tail_of_stars (text_illegible empty legible ▸ longer) apart

end Tail

end SigV4.Redact
