import SigV4.Form
/-!
Fields between separators. `cut` gives back the first field of a text and `split` all of them, as
long as no field holds the separator; two joined texts that are equal have therefore equal fields.
-/
namespace SigV4.Form

theorem cut_joined {separator : UInt8} {field : Bytes} (free : separator ∉ field) (rest : Bytes) :
    cut separator (field ++ separator :: rest) = (field, rest) := by
  have kept : ∀ octet ∈ field, (octet != separator) = true := fun octet member =>
    bne_iff_ne.mpr fun same => free (same ▸ member)
  simp [cut, List.takeWhile_append_of_pos kept, List.dropWhile_append_of_pos kept]

theorem cut_alone {separator : UInt8} {field : Bytes} (free : separator ∉ field) :
    cut separator field = (field, []) := by
  have kept : ∀ octet ∈ field, (octet != separator) = true := fun octet member =>
    bne_iff_ne.mpr fun same => free (same ▸ member)
  have whole : (field ++ []).takeWhile (· != separator) = field ++ [] :=
    List.takeWhile_append_of_pos kept
  have gone : (field ++ []).dropWhile (· != separator) = [] :=
    List.dropWhile_append_of_pos kept
  rw [List.append_nil] at whole gone
  rw [cut, whole, gone, List.drop_nil]

theorem field_unique {separator : UInt8} {left right rest tail : Bytes}
    (leftFree : separator ∉ left) (rightFree : separator ∉ right)
    (same : left ++ separator :: rest = right ++ separator :: tail) :
    left = right ∧ rest = tail := by
  have fields := congrArg (cut separator) same
  rw [cut_joined leftFree, cut_joined rightFree] at fields
  exact Prod.mk.inj fields

theorem split_joined {separator : UInt8} {piece : Bytes} (free : separator ∉ piece)
    (rest : Bytes) : split separator (piece ++ separator :: rest) = piece :: split separator rest := by
  induction piece with
  | nil => simp [split]
  | cons octet piece ih =>
      have different : octet ≠ separator := fun same => free (same ▸ List.mem_cons_self)
      have tail := ih fun member => free (List.mem_cons_of_mem octet member)
      rw [List.cons_append, split, List.foldr_cons, ← split, tail, if_neg different]

theorem split_alone {separator : UInt8} {piece : Bytes} (free : separator ∉ piece) :
    split separator piece = [piece] := by
  induction piece with
  | nil => rfl
  | cons octet piece ih =>
      have different : octet ≠ separator := fun same => free (same ▸ List.mem_cons_self)
      have tail := ih fun member => free (List.mem_cons_of_mem octet member)
      rw [split, List.foldr_cons, ← split, tail, if_neg different]

theorem split_intercalate {separator : UInt8} {pieces : List Bytes} (nonempty : pieces ≠ [])
    (free : ∀ piece ∈ pieces, separator ∉ piece) :
    split separator (List.intercalate [separator] pieces) = pieces := by
  induction pieces with
  | nil => exact absurd rfl nonempty
  | cons first rest ih =>
      have firstFree := free first List.mem_cons_self
      cases rest with
      | nil => rw [List.intercalate_singleton, split_alone firstFree]
      | cons second others =>
          have tail := ih (List.cons_ne_nil second others) fun piece member =>
            free piece (List.mem_cons_of_mem first member)
          rw [List.intercalate_cons_cons, List.append_assoc, List.singleton_append,
            split_joined firstFree, tail]

theorem intercalate_cons (separator : UInt8) (first : Bytes) {rest : List Bytes}
    (more : rest ≠ []) :
    List.intercalate [separator] (first :: rest) =
      first ++ separator :: List.intercalate [separator] rest := by
  rw [List.intercalate_cons_of_ne_nil more, List.append_assoc, List.singleton_append]

theorem intercalate_append (separator : UInt8) (lines : List Bytes) {rest : List Bytes}
    (more : rest ≠ []) :
    List.intercalate [separator] (lines ++ rest) =
      lines.flatMap (· ++ [separator]) ++ List.intercalate [separator] rest := by
  induction lines with
  | nil => rfl
  | cons first lines ih =>
      rw [List.cons_append, intercalate_cons separator first (by simp [more]), ih]
      simp

theorem mem_of_mem_intercalate {octet : UInt8} {separator : Bytes} {pieces : List Bytes}
    (member : octet ∈ List.intercalate separator pieces) :
    octet ∈ separator ∨ ∃ piece ∈ pieces, octet ∈ piece := by
  induction pieces with
  | nil => exact absurd member List.not_mem_nil
  | cons first rest ih =>
      cases rest with
      | nil =>
          rw [List.intercalate_singleton] at member
          exact Or.inr ⟨first, List.mem_cons_self, member⟩
      | cons second others =>
          rw [List.intercalate_cons_cons, List.append_assoc] at member
          rcases List.mem_append.mp member with inside | more
          · exact Or.inr ⟨first, List.mem_cons_self, inside⟩
          rcases List.mem_append.mp more with between | later
          · exact Or.inl between
          rcases ih later with between | ⟨piece, present, inside⟩
          · exact Or.inl between
          · exact Or.inr ⟨piece, List.mem_cons_of_mem first present, inside⟩

-- No pieces at all and one empty piece join to the same text, so empty pieces are not kept.
theorem filter_split_intercalate {separator : UInt8} {pieces : List Bytes}
    (free : ∀ piece ∈ pieces, separator ∉ piece) :
    (split separator (List.intercalate [separator] pieces)).filter (!·.isEmpty) =
      pieces.filter (!·.isEmpty) := by
  by_cases empty : pieces = []
  · simp [empty, split]
  · rw [split_intercalate empty free]

theorem filter_full {pieces : List Bytes} (full : [] ∉ pieces) :
    pieces.filter (!·.isEmpty) = pieces := by
  rw [List.filter_eq_self]
  intro piece member
  cases piece with
  | nil => exact absurd member full
  | cons => rfl

theorem intercalate_injective {separator : UInt8} {left right : List Bytes}
    (leftFree : ∀ piece ∈ left, separator ∉ piece) (rightFree : ∀ piece ∈ right, separator ∉ piece)
    (leftFull : [] ∉ left) (rightFull : [] ∉ right)
    (same : List.intercalate [separator] left = List.intercalate [separator] right) :
    left = right := by
  rw [← filter_full leftFull, ← filter_split_intercalate leftFree, same,
    filter_split_intercalate rightFree, filter_full rightFull]

end SigV4.Form
