import Mathlib.Data.List.Perm.Basic
import SigV4.Canonical
import SigV4.Proofs.EscapedText
/-!
The pairs of a query as they are signed. Both sides of a pair are escaped, so the text of all pairs
is read back to them; sorting forgets the order in which they came and nothing else.
-/
namespace SigV4.Canonical

def pairOctets (pair : String × String) : Bytes :=
  Bytes.ofText pair.1 ++ '='.toUInt8 :: Bytes.ofText pair.2

def isPairByte (octet : UInt8) : Bool :=
  Percent.isWritten Percent.isUnreserved octet || octet == '='.toUInt8

def isQueryByte (octet : UInt8) : Bool := isPairByte octet || octet == '&'.toUInt8

theorem encodePair_injective : Function.Injective encodePair := by
  intro left right same
  obtain ⟨keys, values⟩ := Prod.mk.inj same
  exact Prod.ext (Percent.encodeText_query_injective keys)
    (Percent.encodeText_query_injective values)

theorem sortedQuery_perm (pairs : List (String × String)) :
    (sortedQuery pairs).Perm (pairs.map encodePair) :=
  List.mergeSort_perm _ _

theorem exists_of_mem_sortedQuery {pairs : List (String × String)} {pair : String × String}
    (member : pair ∈ sortedQuery pairs) : ∃ source ∈ pairs, encodePair source = pair :=
  List.mem_map.mp ((sortedQuery_perm pairs).mem_iff.mp member)

theorem equals_not_mem_key (pair : String × String) :
    '='.toUInt8 ∉ Bytes.ofText (encodePair pair).1 := by
  rw [encodePair, Percent.ofText_encodeText_query]
  exact Percent.not_mem_encode rfl _

theorem isPairByte_of_mem {pair : String × String} {octet : UInt8}
    (member : octet ∈ pairOctets (encodePair pair)) : isPairByte octet = true := by
  rw [pairOctets, encodePair, Percent.ofText_encodeText_query, Percent.ofText_encodeText_query]
    at member
  rcases List.mem_append.mp member with key | more
  · rw [isPairByte, Percent.isWritten_of_mem_encode key, Bool.true_or]
  rcases List.mem_cons.mp more with equals | value
  · exact equals ▸ rfl
  · rw [isPairByte, Percent.isWritten_of_mem_encode value, Bool.true_or]

/-- Pieces that hold octets of pairs only, joined to a query. -/
theorem isQueryByte_of_mem_joined {pieces : List Bytes} {octet : UInt8}
    (held : ∀ piece ∈ pieces, ∀ octet ∈ piece, isPairByte octet = true)
    (member : octet ∈ List.intercalate ['&'.toUInt8] pieces) : isQueryByte octet = true := by
  rcases Form.mem_of_mem_intercalate member with between | ⟨piece, present, inside⟩
  · exact List.mem_singleton.mp between ▸ rfl
  · rw [isQueryByte, held piece present octet inside, Bool.true_or]

theorem isPairByte_of_mem_sorted {pairs : List (String × String)} :
    ∀ piece ∈ (sortedQuery pairs).map pairOctets, ∀ octet ∈ piece, isPairByte octet = true := by
  intro piece member octet inside
  obtain ⟨pair, sorted, rfl⟩ := List.mem_map.mp member
  obtain ⟨source, _, rfl⟩ := exists_of_mem_sortedQuery sorted
  exact isPairByte_of_mem inside

theorem ofText_queryText (pairs : List (String × String)) :
    Bytes.ofText (queryText pairs) =
      List.intercalate ['&'.toUInt8] ((sortedQuery pairs).map pairOctets) := by
  have ampersand : Bytes.ofText "&" = ['&'.toUInt8] := rfl
  have equals : Bytes.ofText "=" = ['='.toUInt8] := rfl
  rw [queryText, Bytes.ofText_intercalate, ampersand, List.map_map]
  congr 1
  apply List.map_congr_left
  intro pair _
  simp [pairOctets, equals]

theorem isQueryByte_of_mem_queryText {pairs : List (String × String)} {octet : UInt8}
    (member : octet ∈ Bytes.ofText (queryText pairs)) : isQueryByte octet = true :=
  isQueryByte_of_mem_joined isPairByte_of_mem_sorted (ofText_queryText pairs ▸ member)

theorem cut_pairOctets {pairs : List (String × String)} {pair : String × String}
    (sorted : pair ∈ sortedQuery pairs) :
    Form.cut '='.toUInt8 (pairOctets pair) = (Bytes.ofText pair.1, Bytes.ofText pair.2) := by
  obtain ⟨source, _, rfl⟩ := exists_of_mem_sortedQuery sorted
  exact Form.cut_joined (equals_not_mem_key source) _

-- No separator of pairs or sides stands in an escaped text, so the text is cut where it was joined.
theorem sortedQuery_of_queryText {left right : List (String × String)}
    (same : queryText left = queryText right) : sortedQuery left = sortedQuery right := by
  have octets := congrArg Bytes.ofText same
  rw [ofText_queryText, ofText_queryText] at octets
  have free : ∀ pairs, ∀ piece ∈ (sortedQuery pairs).map pairOctets, '&'.toUInt8 ∉ piece := by
    intro pairs piece member
    exact Bytes.not_mem_of_class (isPairByte_of_mem_sorted piece member) rfl
  have full : ∀ pairs, [] ∉ (sortedQuery pairs).map pairOctets := by
    intro pairs member
    obtain ⟨pair, _, empty⟩ := List.mem_map.mp member
    exact absurd empty (by simp [pairOctets])
  have pieces := Form.intercalate_injective (free left) (free right) (full left) (full right) octets
  have sides : ∀ pairs, ((sortedQuery pairs).map pairOctets).map (Form.cut '='.toUInt8) =
      (sortedQuery pairs).map fun pair => (Bytes.ofText pair.1, Bytes.ofText pair.2) := by
    intro pairs
    rw [List.map_map]
    exact List.map_congr_left fun pair sorted => cut_pairOctets sorted
  have cut := congrArg (List.map (Form.cut '='.toUInt8)) pieces
  rw [sides, sides] at cut
  refine (List.map_inj_right ?_).mp cut
  intro first second equal
  obtain ⟨keys, values⟩ := Prod.mk.inj equal
  exact Prod.ext (Bytes.ofText_injective keys) (Bytes.ofText_injective values)

theorem perm_of_sortedQuery {left right : List (String × String)}
    (same : sortedQuery left = sortedQuery right) : left.Perm right := by
  have encoded := (sortedQuery_perm left).symm.trans (same ▸ sortedQuery_perm right)
  exact (List.map_perm_map_iff encodePair_injective).mp encoded

/-- Pairs are ordered by the octets of their keys, and those of one key by the octets of their
values. -/
theorem pairLe_iff {left right : String × String} :
    pairLe left right = true ↔ Bytes.ofText left.1 < Bytes.ofText right.1 ∨
      (Bytes.ofText left.1 = Bytes.ofText right.1 ∧
        Bytes.ofText left.2 ≤ Bytes.ofText right.2) := by
  unfold pairLe
  by_cases same : left.1 = right.1
  · rw [if_pos same, same, decide_eq_true_eq]
    simp [List.lt_irrefl]
  · have apart : Bytes.ofText left.1 ≠ Bytes.ofText right.1 := fun octets =>
      same (Bytes.ofText_injective octets)
    rw [if_neg same, decide_eq_true_eq, List.le_iff_lt_or_eq]
    simp [apart]

-- The order of pairs is total, so what is sorted once stays as it is.
theorem pairLe_total (left right : String × String) :
    (pairLe left right || pairLe right left) = true := by
  rw [Bool.or_eq_true, pairLe_iff, pairLe_iff]
  rcases Std.lt_trichotomy (Bytes.ofText left.1) (Bytes.ofText right.1) with lower | same | upper
  · exact Or.inl (Or.inl lower)
  · rcases List.le_total (Bytes.ofText left.2) (Bytes.ofText right.2) with lower | upper
    · exact Or.inl (Or.inr ⟨same, lower⟩)
    · exact Or.inr (Or.inr ⟨same.symm, upper⟩)
  · exact Or.inr (Or.inl upper)

theorem pairLe_trans (first second third : String × String) (lower : pairLe first second = true)
    (upper : pairLe second third = true) : pairLe first third = true := by
  rw [pairLe_iff] at lower upper ⊢
  rcases lower with less | ⟨same, lower⟩
  · rcases upper with more | ⟨equal, _⟩
    · exact Or.inl (List.lt_trans less more)
    · exact Or.inl (equal ▸ less)
  · rcases upper with more | ⟨equal, upper⟩
    · exact Or.inl (same ▸ more)
    · exact Or.inr ⟨same.trans equal, List.le_trans lower upper⟩

theorem pairLe_antisymm {left right : String × String} (lower : pairLe left right = true)
    (upper : pairLe right left = true) : left = right := by
  rw [pairLe_iff] at lower upper
  rcases lower with less | ⟨same, lower⟩
  · rcases upper with more | ⟨same, _⟩
    · exact absurd more (List.lt_asymm less)
    · exact absurd (same ▸ less) (List.lt_irrefl _)
  · rcases upper with more | ⟨_, upper⟩
    · exact absurd (same ▸ more) (List.lt_irrefl _)
    · exact Prod.ext (Bytes.ofText_injective same)
        (Bytes.ofText_injective (List.le_antisymm lower upper))

theorem sortedQuery_of_perm {left right : List (String × String)} (perm : left.Perm right) :
    sortedQuery left = sortedQuery right := by
  have sorted := List.pairwise_mergeSort pairLe_trans pairLe_total
  have members : (sortedQuery left).Perm (sortedQuery right) :=
    (sortedQuery_perm left).trans ((perm.map encodePair).trans (sortedQuery_perm right).symm)
  exact List.Perm.eq_of_pairwise (fun _ _ _ _ => pairLe_antisymm) (sorted _) (sorted _) members

/-- The pairs themselves in the order in which they are signed. -/
def sortedPairs (pairs : List (String × String)) : List (String × String) :=
  pairs.mergeSort fun left right => pairLe (encodePair left) (encodePair right)

theorem map_sortedPairs (pairs : List (String × String)) :
    (sortedPairs pairs).map encodePair = sortedQuery pairs :=
  List.map_mergeSort fun _ _ _ _ => rfl

theorem sortedPairs_perm (pairs : List (String × String)) : (sortedPairs pairs).Perm pairs :=
  List.mergeSort_perm _ _

theorem mem_sortedPairs {pairs : List (String × String)} {pair : String × String} :
    pair ∈ sortedPairs pairs ↔ pair ∈ pairs :=
  (sortedPairs_perm pairs).mem_iff

theorem sortedQuery_sortedPairs (pairs : List (String × String)) :
    sortedQuery (sortedPairs pairs) = sortedQuery pairs := by
  rw [sortedQuery, map_sortedPairs]
  exact List.mergeSort_of_pairwise (List.pairwise_mergeSort pairLe_trans pairLe_total _)

end SigV4.Canonical
