import SigV4.Header
import Mathlib.Data.List.Chain
import Mathlib.Data.List.DropRight
/-!
Normal forms of header values. Trimming and collapsing commute, so what is normal stays as it is;
and values that differ only in the spaces around and between their words have one normal form.
-/
namespace SigV4.HeaderValue

theorem eq_space {octet : UInt8} (space : isSpace octet = true) : octet = ' '.toUInt8 :=
  eq_of_beq space

theorem isBlank_of_isSpace {octet : UInt8} (space : isSpace octet = true) :
    isBlank octet = true := by
  simp only [isBlank, space, Bool.true_or]

theorem isSpace_of_solid {octet : UInt8} (solid : isBlank octet = false) :
    isSpace octet = false := by
  rw [← Bool.not_eq_true] at solid ⊢
  exact fun space => solid (isBlank_of_isSpace space)

theorem dropWhile_solid {first : UInt8} (solid : isBlank first = false) (rest : Bytes) :
    (first :: rest).dropWhile isBlank = first :: rest :=
  List.dropWhile_cons_of_neg (solid ▸ Bool.false_ne_true)

-- A space is dropped just before another one, so the first octet is never lost.
theorem head?_collapse (octets : Bytes) : (collapse octets).head? = octets.head? := by
  induction octets with
  | nil => rfl
  | cons first rest ih =>
      rw [collapse, List.foldr_cons, ← collapse]
      split
      · next dropped =>
          obtain ⟨space, next⟩ := Bool.and_eq_true_iff.mp dropped
          obtain ⟨second, found, also⟩ := (Option.any_eq_true _ _).mp next
          rw [found, List.head?_cons, eq_space space, eq_space also]
      · rfl

theorem collapse_cons (first : UInt8) (rest : Bytes) :
    collapse (first :: rest) =
      if isSpace first && rest.head?.any isSpace then collapse rest else first :: collapse rest := by
  rw [← head?_collapse rest]
  rfl

theorem collapse_collapse (octets : Bytes) : collapse (collapse octets) = collapse octets := by
  induction octets with
  | nil => rfl
  | cons first rest ih =>
      rw [collapse_cons]
      split
      · exact ih
      · next kept => rw [collapse_cons, head?_collapse, if_neg kept, ih]

theorem collapse_singleton (octet : UInt8) : collapse [octet] = [octet] := by
  simp [collapse]

theorem collapse_pair (first last : UInt8) :
    collapse [first, last] = if isSpace last && isSpace first then [first] else [first, last] := by
  rw [collapse_cons, collapse_singleton, List.head?_cons, Option.any_some]
  cases space : isSpace first with
  | false => simp
  | true =>
      cases also : isSpace last with
      | false => simp
      | true => simp [eq_space space, eq_space also]

-- Of a run that is extended at its end another space is dropped than of one that is extended at its
-- front; but spaces are all the same octet, so no one can tell.
theorem collapse_concat (octets : Bytes) (last : UInt8) :
    collapse (octets ++ [last]) =
      if isSpace last && octets.getLast?.any isSpace then collapse octets
      else collapse octets ++ [last] := by
  induction octets with
  | nil => simp [collapse]
  | cons first rest ih =>
      cases rest with
      | nil =>
          rw [collapse_singleton]
          exact collapse_pair first last
      | cons second others =>
          rw [List.cons_append, collapse_cons, ih, collapse_cons first, List.getLast?_cons_cons]
          cases joined : isSpace first && isSpace second with
          | true => simp only [List.cons_append, List.head?_cons, Option.any_some, joined, if_true]
          | false =>
              simp only [List.cons_append, List.head?_cons, Option.any_some, joined,
                Bool.false_eq_true, if_false, apply_ite (List.cons first)]

theorem collapse_reverse (octets : Bytes) :
    collapse octets.reverse = (collapse octets).reverse := by
  induction octets with
  | nil => rfl
  | cons first rest ih =>
      rw [List.reverse_cons, collapse_concat, List.getLast?_reverse, ih, collapse_cons]
      split
      · rfl
      · rw [List.reverse_cons]

theorem collapse_dropWhile (octets : Bytes) :
    collapse (octets.dropWhile isBlank) = (collapse octets).dropWhile isBlank := by
  induction octets with
  | nil => rfl
  | cons first rest ih =>
      rw [collapse_cons]
      cases blank : isBlank first with
      | true =>
          rw [List.dropWhile_cons_of_pos blank, ih]
          split
          · rfl
          · rw [List.dropWhile_cons_of_pos blank]
      | false =>
          rw [dropWhile_solid blank, collapse_cons, isSpace_of_solid blank]
          exact (dropWhile_solid blank _).symm

theorem collapse_trim (octets : Bytes) : collapse (trim octets) = trim (collapse octets) := by
  rw [trim, collapse_reverse, collapse_dropWhile, collapse_reverse, collapse_dropWhile, trim]

-- What is left of a trimmed front starts with no blank, wherever its end is then cut off.
theorem dropWhile_of_prefix {octets whole : Bytes}
    (front : octets <+: whole.dropWhile isBlank) : octets.dropWhile isBlank = octets := by
  cases octets with
  | nil => rfl
  | cons first rest =>
      have nonempty := List.ne_nil_of_mem (front.mem List.mem_cons_self)
      have solid := List.head_dropWhile_not isBlank nonempty
      rw [← front.head (List.cons_ne_nil first rest), List.head_cons] at solid
      exact dropWhile_solid solid rest

theorem trim_eq (octets : Bytes) :
    trim octets = (octets.dropWhile isBlank).rdropWhile isBlank :=
  rfl

theorem dropWhile_trim (octets : Bytes) : (trim octets).dropWhile isBlank = trim octets :=
  dropWhile_of_prefix (List.rdropWhile_prefix isBlank (octets.dropWhile isBlank))

theorem rdropWhile_trim (octets : Bytes) : (trim octets).rdropWhile isBlank = trim octets :=
  List.rdropWhile_idempotent isBlank _

theorem trim_trim (octets : Bytes) : trim (trim octets) = trim octets := by
  rw [trim_eq (trim octets), dropWhile_trim, rdropWhile_trim]

def normal (octets : Bytes) : Bytes := collapse (trim octets)

@[simp] theorem octets_normalize (value : HeaderValue) :
    value.normalize.octets = normal value.octets :=
  rfl

@[simp] theorem normal_normal (octets : Bytes) : normal (normal octets) = normal octets := by
  rw [normal, normal, ← collapse_trim, trim_trim, collapse_collapse]

theorem ext_octets {left right : HeaderValue} (octets : left.octets = right.octets)
    (sensitive : left.sensitive = right.sensitive) : left = right := by
  cases left
  cases right
  cases octets
  cases sensitive
  rfl

theorem normalize_eq_self {value : HeaderValue} (normal : normal value.octets = value.octets) :
    value.normalize = value :=
  ext_octets normal rfl

@[simp] theorem normalize_normalize (value : HeaderValue) :
    value.normalize.normalize = value.normalize :=
  normalize_eq_self (normal_normal value.octets)

theorem trim_concat {last : UInt8} (blank : isBlank last = true) (octets : Bytes) :
    trim (octets ++ [last]) = trim octets := by
  rw [trim_eq, trim_eq, List.dropWhile_append]
  split
  · next nothing =>
      rw [List.isEmpty_iff.mp nothing, List.dropWhile_cons_of_pos blank, List.dropWhile_nil]
  · exact List.rdropWhile_concat_pos isBlank _ last blank

theorem trim_solid {octets : Bytes} (solid : ∀ octet ∈ octets, isBlank octet = false) :
    trim octets = octets := by
  have kept : ∀ {octets : Bytes}, (∀ octet ∈ octets, isBlank octet = false) →
      octets.dropWhile isBlank = octets := by
    intro octets solid
    cases octets with
    | nil => rfl
    | cons first rest => exact dropWhile_solid (solid first List.mem_cons_self) rest
  have reversed : ∀ octet ∈ octets.reverse, isBlank octet = false := fun octet member =>
    solid octet (List.mem_reverse.mp member)
  rw [trim, kept solid, kept reversed, List.reverse_reverse]

theorem collapse_solid {octets : Bytes} (solid : ∀ octet ∈ octets, isBlank octet = false) :
    collapse octets = octets := by
  induction octets with
  | nil => rfl
  | cons first rest ih =>
      have start := isSpace_of_solid (solid first List.mem_cons_self)
      have tail := ih fun octet member => solid octet (List.mem_cons_of_mem first member)
      rw [collapse_cons, start, tail]
      rfl

theorem normal_solid {octets : Bytes} (solid : ∀ octet ∈ octets, isBlank octet = false) :
    normal octets = octets := by
  rw [normal, trim_solid solid, collapse_solid solid]

theorem normalize_solid {value : HeaderValue}
    (solid : ∀ octet ∈ value.octets, isBlank octet = false) : value.normalize = value :=
  normalize_eq_self (normal_solid solid)

structure Tidy (octets : Bytes) : Prop where
  front : ∀ octet ∈ octets.head?, isBlank octet = false
  back : ∀ octet ∈ octets.getLast?, isBlank octet = false
  spaced : octets.IsChain fun left right => (isSpace left && isSpace right) = false

theorem front_iff {octets : Bytes} :
    octets.dropWhile isBlank = octets ↔ ∀ octet ∈ octets.head?, isBlank octet = false := by
  rw [List.dropWhile_eq_self_iff]
  cases octets with
  | nil => simp
  | cons first rest => simp

theorem back_iff {octets : Bytes} :
    octets.rdropWhile isBlank = octets ↔ ∀ octet ∈ octets.getLast?, isBlank octet = false := by
  rw [← List.head?_reverse, ← front_iff, List.rdropWhile, List.reverse_eq_iff]

/-- Nothing is trimmed of what has no blank at an end. -/
theorem trim_eq_self {octets : Bytes} (front : ∀ octet ∈ octets.head?, isBlank octet = false)
    (back : ∀ octet ∈ octets.getLast?, isBlank octet = false) : trim octets = octets := by
  rw [trim_eq, front_iff.mpr front, back_iff.mpr back]

theorem getLast?_collapse (octets : Bytes) : (collapse octets).getLast? = octets.getLast? := by
  rw [← List.head?_reverse, ← collapse_reverse, head?_collapse, List.head?_reverse]

-- Induction on the octets: a space is kept only where what follows starts with something else, and
-- collapsing what follows does not change what it starts with.
theorem spaced_collapse (octets : Bytes) :
    (collapse octets).IsChain fun left right => (isSpace left && isSpace right) = false := by
  induction octets with
  | nil => exact .nil
  | cons first rest ih =>
      rw [collapse_cons]
      split
      · exact ih
      · next kept =>
          rw [List.isChain_cons]
          refine ⟨fun second next => ?_, ih⟩
          rw [head?_collapse, Option.mem_def] at next
          simpa [next] using kept

theorem collapse_spaced {octets : Bytes}
    (spaced : octets.IsChain fun left right => (isSpace left && isSpace right) = false) :
    collapse octets = octets := by
  induction octets with
  | nil => rfl
  | cons first rest ih =>
      obtain ⟨next, others⟩ := List.isChain_cons.mp spaced
      rw [collapse_cons, ih others, if_neg]
      intro dropped
      obtain ⟨space, also⟩ := Bool.and_eq_true_iff.mp dropped
      obtain ⟨second, found, again⟩ := (Option.any_eq_true _ _).mp also
      have apart := next second found
      rw [space, again] at apart
      contradiction

theorem tidy_normal (octets : Bytes) : Tidy (normal octets) := by
  constructor
  case front =>
    rw [normal, head?_collapse]
    exact front_iff.mp (dropWhile_trim octets)
  case back =>
    rw [normal, getLast?_collapse]
    exact back_iff.mp (rdropWhile_trim octets)
  case spaced => exact spaced_collapse (trim octets)

/-- The octets that normalizing keeps as they are. -/
theorem normal_eq_iff {octets : Bytes} : normal octets = octets ↔ Tidy octets := by
  constructor
  · intro same
    exact same ▸ tidy_normal octets
  · intro tidy
    rw [normal, trim_eq_self tidy.front tidy.back, collapse_spaced tidy.spaced]

instance (octets : Bytes) : Decidable (Tidy octets) := decidable_of_iff _ normal_eq_iff

theorem normalize_eq_iff {value : HeaderValue} : value.normalize = value ↔ Tidy value.octets := by
  rw [← normal_eq_iff]
  exact ⟨congrArg HeaderValue.octets, normalize_eq_self⟩

/-- Values that differ in leading, trailing and repeated spaces only. -/
inductive Respaced : Bytes → Bytes → Prop where
  | leading (octets : Bytes) : Respaced (' '.toUInt8 :: octets) octets
  | trailing (octets : Bytes) : Respaced (octets ++ [' '.toUInt8]) octets
  | repeated (before after : Bytes) :
      Respaced (before ++ ' '.toUInt8 :: ' '.toUInt8 :: after) (before ++ ' '.toUInt8 :: after)
  | refl (octets : Bytes) : Respaced octets octets
  | symm {left right : Bytes} : Respaced left right → Respaced right left
  | trans {left middle right : Bytes} :
      Respaced left middle → Respaced middle right → Respaced left right

theorem collapse_repeated (before after : Bytes) :
    collapse (before ++ ' '.toUInt8 :: ' '.toUInt8 :: after) =
      collapse (before ++ ' '.toUInt8 :: after) := by
  have front : collapse (' '.toUInt8 :: ' '.toUInt8 :: after) = collapse (' '.toUInt8 :: after) :=
    collapse_cons ' '.toUInt8 (' '.toUInt8 :: after)
  rw [collapse, List.foldr_append, ← collapse, front, collapse, ← List.foldr_append, ← collapse]

theorem normal_of_respaced {left right : Bytes} (respaced : Respaced left right) :
    normal left = normal right := by
  induction respaced with
  | leading octets => rw [normal, normal, trim, List.dropWhile_cons_of_pos rfl, trim]
  | trailing octets => rw [normal, normal, trim_concat rfl]
  | repeated before after => rw [normal, normal, collapse_trim, collapse_trim, collapse_repeated]
  | refl octets => rfl
  | symm _ same => exact same.symm
  | trans _ _ first second => exact first.trans second

end SigV4.HeaderValue
