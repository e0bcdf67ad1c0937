import Mathlib.Data.List.DropRight
import SigV4.Fault
import SigV4.Proofs.NormalValue
/-!
The normal form of a header value, said without computing it: the blanks at both ends are taken
away, and every maximal run of spaces that is left is written as one space. The octets are gathered
one by one, and the value is replaced if fewer were gathered than it has. What is as long as before
is the same as before, so a value stays as it is just if it was in normal form.
-/
namespace SigV4.HeaderValue

-- Space, tab, line feed, form feed and carriage return.
def blanks : Bytes := [0x20, 0x09, 0x0A, 0x0C, 0x0D]

theorem isBlank_iff {octet : UInt8} : isBlank octet = true ↔ octet ∈ blanks :=
  Bytes.forall_octet (fun octet => isBlank octet = true ↔ octet ∈ blanks) (by decide +kernel) octet

structure Trimmed (octets core : Bytes) : Prop where
  ends : ∃ front back, octets = front ++ core ++ back ∧
    (∀ octet ∈ front, octet ∈ blanks) ∧ ∀ octet ∈ back, octet ∈ blanks
  first : ∀ octet ∈ core.head?, octet ∉ blanks
  last : ∀ octet ∈ core.getLast?, octet ∉ blanks

theorem trim_leading {front : Bytes} (blank : ∀ octet ∈ front, isBlank octet = true)
    (octets : Bytes) : trim (front ++ octets) = trim octets := by
  rw [trim, List.dropWhile_append_of_pos blank, ← trim]

theorem trim_trailing {back : Bytes} (blank : ∀ octet ∈ back, isBlank octet = true)
    (octets : Bytes) : trim (octets ++ back) = trim octets := by
  induction back generalizing octets with
  | nil => rw [List.append_nil]
  | cons first rest ih =>
      have tail := ih fun octet member => blank octet (List.mem_cons_of_mem first member)
      rw [List.append_cons, tail, trim_concat (blank first List.mem_cons_self)]

theorem trimmed_trim (octets : Bytes) : Trimmed octets (trim octets) := by
  have front := List.takeWhile_append_dropWhile (p := isBlank) (l := octets)
  have back := List.rdropWhile_append_rtakeWhile (p := isBlank) (l := octets.dropWhile isBlank)
  refine ⟨⟨octets.takeWhile isBlank, (octets.dropWhile isBlank).rtakeWhile isBlank, ?whole,
    fun _ member => isBlank_iff.mp (List.mem_takeWhile_imp member),
    fun _ member => isBlank_iff.mp (List.mem_rtakeWhile_imp member)⟩, ?first, ?last⟩
  case whole => rw [trim_eq, List.append_assoc, back, front]
  case first =>
    simp only [← isBlank_iff, Bool.not_eq_true]
    exact front_iff.mp (dropWhile_trim octets)
  case last =>
    simp only [← isBlank_iff, Bool.not_eq_true]
    exact back_iff.mp (rdropWhile_trim octets)

theorem trimmed_iff {octets core : Bytes} : Trimmed octets core ↔ core = trim octets := by
  constructor
  · rintro ⟨⟨front, back, rfl, leading, trailing⟩, first, last⟩
    simp only [← isBlank_iff, Bool.not_eq_true] at leading trailing first last
    rw [trim_trailing trailing, trim_leading leading, trim_eq_self first last]
  · rintro rfl
    exact trimmed_trim octets

/-- Every maximal run of spaces is written as one space, and all else as it is. -/
inductive Collapsed : Bytes → Bytes → Prop where
  | nil : Collapsed [] []
  | plain {octet : UInt8} {octets written : Bytes} (solid : octet ≠ ' '.toUInt8) :
      Collapsed octets written → Collapsed (octet :: octets) (octet :: written)
  | run (more : Nat) {octets written : Bytes} (ends : octets.head? ≠ some ' '.toUInt8) :
      Collapsed octets written →
        Collapsed (List.replicate (more + 1) ' '.toUInt8 ++ octets) (' '.toUInt8 :: written)

theorem starts_solid_iff {octets : Bytes} :
    octets.head?.any isSpace = false ↔ octets.head? ≠ some ' '.toUInt8 := by
  cases octets with
  | nil => simp
  | cons first rest => simp [isSpace]

theorem collapse_run (more : Nat) {octets : Bytes} (ends : octets.head? ≠ some ' '.toUInt8) :
    collapse (List.replicate (more + 1) ' '.toUInt8 ++ octets) =
      ' '.toUInt8 :: collapse octets := by
  induction more with
  | zero =>
      rw [List.replicate_one, List.singleton_append, collapse_cons, starts_solid_iff.mpr ends,
        Bool.and_false]
      rfl
  | succ more ih =>
      rw [List.replicate_succ, List.cons_append, collapse_cons, ih]
      rfl

/-- A run takes in another space before it. -/
theorem Collapsed.longer {octets written : Bytes} (starts : octets.head? = some ' '.toUInt8)
    (collapsed : Collapsed octets written) : Collapsed (' '.toUInt8 :: octets) written := by
  cases collapsed with
  | nil => contradiction
  | plain solid rest => exact absurd (Option.some.inj starts) solid
  | run more ends rest => exact .run (more + 1) ends rest

theorem collapsed_collapse (octets : Bytes) : Collapsed octets (collapse octets) := by
  induction octets with
  | nil => exact .nil
  | cons first rest ih =>
      rw [collapse_cons]
      cases space : isSpace first with
      | false => exact .plain (beq_eq_false_iff_ne.mp space) ih
      | true =>
          rw [eq_space space]
          by_cases starts : rest.head? = some ' '.toUInt8
          · rw [starts]
            exact ih.longer starts
          · rw [starts_solid_iff.mpr starts]
            exact .run 0 starts ih

theorem collapsed_iff {octets written : Bytes} :
    Collapsed octets written ↔ written = collapse octets := by
  constructor
  · intro collapsed
    induction collapsed with
    | nil => rfl
    | plain solid _ ih =>
        have solid : isSpace _ = false := beq_eq_false_iff_ne.mpr solid
        rw [collapse_cons, solid, ih]
        rfl
    | run more ends _ ih => rw [collapse_run more ends, ih]
  · rintro rfl
    exact collapsed_collapse octets

theorem normal_iff {octets written : Bytes} :
    (∃ core, Trimmed octets core ∧ Collapsed core written) ↔ written = normal octets := by
  simp only [trimmed_iff, collapsed_iff, exists_eq_left, normal]

def gather (gathered : Bytes) (octet : UInt8) : Bytes :=
  if isSpace octet && gathered.getLast?.any isSpace then gathered else gathered ++ [octet]

-- The invariant of gathering: what is gathered is what has been read, collapsed.
theorem foldl_gather (read rest : Bytes) :
    rest.foldl gather (collapse read) = collapse (read ++ rest) := by
  induction rest generalizing read with
  | nil => rw [List.foldl_nil, List.append_nil]
  | cons first rest ih =>
      have step : gather (collapse read) first = collapse (read ++ [first]) := by
        rw [gather, getLast?_collapse, collapse_concat]
      rw [List.foldl_cons, step, ih, List.append_assoc, List.singleton_append]

/-- A value is replaced only if fewer octets are gathered than it has. -/
def replaced (value : HeaderValue) : Except Fault HeaderValue :=
  let gathered := (trim value.octets).foldl gather []
  if gathered.length ≠ value.octets.length then
    match ofBytes? gathered value.sensitive with
    | some value => .ok value
    | none => .error .headerValueInvalid
  else .ok value

theorem collapse_sublist (octets : Bytes) : (collapse octets).Sublist octets := by
  induction octets with
  | nil => exact .slnil
  | cons first rest ih =>
      rw [collapse_cons]
      split
      · exact ih.cons first
      · exact ih.cons_cons first

theorem trim_sublist (octets : Bytes) : (trim octets).Sublist octets :=
  (List.rdropWhile_prefix isBlank _).sublist.trans (List.dropWhile_sublist isBlank)

theorem normal_sublist (octets : Bytes) : (normal octets).Sublist octets :=
  (collapse_sublist _).trans (trim_sublist octets)

/-- The normal form of octets is as long as they are just if it is what they are. -/
theorem length_normal_iff {octets : Bytes} :
    (normal octets).length = octets.length ↔ Tidy octets := by
  rw [← normal_eq_iff]
  exact ⟨(normal_sublist octets).eq_of_length, congrArg List.length⟩

theorem gathered_eq (octets : Bytes) : (trim octets).foldl gather [] = normal octets :=
  foldl_gather [] (trim octets)

theorem replaced_eq (value : HeaderValue) : value.replaced = .ok value.normalize := by
  have made : ofBytes? (normal value.octets) value.sensitive = some value.normalize :=
    dif_pos value.normalize.valid
  simp only [replaced, gathered_eq, made]
  by_cases same : (normal value.octets).length = value.octets.length
  · rw [if_neg (not_not_intro same), normalize_eq_iff.mpr (length_normal_iff.mp same)]
  · rw [if_pos same]

/-- Gathering never fails, and normalizes: the ends are trimmed, every run is one space, the mark
stays, and to normalize again changes nothing. The value is left as it is just if as many octets are
gathered as it has, and so just if it was tidy. -/
theorem replaced_by_normal_form (value : HeaderValue) :
    value.replaced = .ok value.normalize ∧
      (∀ written, (∃ core, Trimmed value.octets core ∧ Collapsed core written) ↔
        written = value.normalize.octets) ∧
      value.normalize.sensitive = value.sensitive ∧
      value.normalize.normalize = value.normalize ∧
      (((trim value.octets).foldl gather []).length = value.octets.length ↔
        Tidy value.octets) ∧
      (value.normalize = value ↔ Tidy value.octets) := by
  refine ⟨replaced_eq value, fun _ => normal_iff, rfl, normalize_normalize value, ?exact,
    normalize_eq_iff⟩
  case exact => rw [gathered_eq, length_normal_iff]

-- A tab is blank at an end and is kept inside, where it parts two runs.
example : normal (Bytes.ofText "\t a  \t  é ") = Bytes.ofText "a \t é" := by decide

end SigV4.HeaderValue
