import SigV4.Proofs.WrittenDraft
/-!
When a draft can be put together. Escaped pairs always make a query, so nothing but its length can
keep a target from being accepted; and a target is no longer than the room that is reserved for it,
which is its path, the octets of its pairs and two more for each pair.
-/
namespace SigV4

namespace PathAndQuery

theorem ofParts?_path {path : String} (valid : isPath path = true) :
    ∃ parts, ofParts? (Bytes.ofText path) none = some parts := by
  simp [ofParts?, valid]

theorem ofParts?_query {path query : String} (valid : isPath path = true)
    (held : isQuery query = true) :
    ∃ parts, ofParts? (Bytes.ofText path) (some (Bytes.ofText query)) = some parts := by
  simp [ofParts?, valid, held]

theorem parse_rooted {octets rest : Bytes} (rooted : octets = '/'.toUInt8 :: rest)
    (short : octets.length ≤ maxLength) : parse octets = ofTail octets := by
  have slash : Bytes.isOneOf ['/', '?', '#'] '/'.toUInt8 = true := rfl
  subst rooted
  simp only [parse, Nat.not_lt.mpr short, if_false, slash, Bool.true_or, if_true]

end PathAndQuery

namespace Draft
open Canonical

theorem isQuery_queryText (pairs : List (String × String)) :
    PathAndQuery.isQuery (queryText (pairs.map encodePair)) = true := by
  rw [PathAndQuery.isQuery, List.all_eq_true]
  intro octet member
  exact Bytes.of_class (isQueryByte_of_mem_written member) (by decide +kernel)

theorem ofTail_written {draft : Draft} {pairs : List (String × String)}
    (valid : PathAndQuery.isPath draft.path = true)
    (written : draft.query = pairs.map encodePair) :
    ∃ parts, PathAndQuery.ofTail (Bytes.ofText draft.target) = .ok parts := by
  have noFragment : '#'.toUInt8 ∉ Bytes.ofText draft.path := PathAndQuery.not_mem_path valid rfl
  have noQuery : '?'.toUInt8 ∉ Bytes.ofText draft.path := PathAndQuery.not_mem_path valid rfl
  rw [ofText_target, written]
  split
  · obtain ⟨parts, found⟩ := PathAndQuery.ofParts?_path valid
    rw [PathAndQuery.ofTail_unmarked noFragment noQuery, found]
    exact ⟨parts, rfl⟩
  · have free : '#'.toUInt8 ∉ Bytes.ofText (queryText (pairs.map encodePair)) :=
      Bytes.not_mem_of_class (fun _ => isQueryByte_of_mem_written) rfl
    obtain ⟨parts, found⟩ := PathAndQuery.ofParts?_query valid (isQuery_queryText pairs)
    rw [PathAndQuery.ofTail_marked noFragment noQuery free, found]
    exact ⟨parts, rfl⟩

theorem length_pairText (pair : String × String) :
    (Bytes.ofText (pairText pair)).length ≤ pair.1.utf8ByteSize + pair.2.utf8ByteSize + 1 := by
  rw [ofText_pairText]
  split
  · rw [Bytes.length_ofText]
    omega
  · rw [pairOctets, List.length_append, List.length_cons, Bytes.length_ofText, Bytes.length_ofText]
    omega

-- Between two pairs there is an ampersand, so the last pair leaves one octet of its two unused.
theorem length_queryText {query : List (String × String)} (nonempty : query ≠ []) :
    (Bytes.ofText (queryText query)).length <
      query.foldr (fun (key, value) size => key.utf8ByteSize + value.utf8ByteSize + size) 0 +
        2 * query.length := by
  rw [ofText_queryText]
  induction query with
  | nil => contradiction
  | cons pair rest ih =>
      have first := length_pairText pair
      cases rest with
      | nil =>
          simp only [List.map_cons, List.map_nil, List.intercalate_singleton, List.foldr_cons,
            List.foldr_nil, List.length_cons, List.length_nil]
          omega
      | cons next others =>
          have tail := ih (List.cons_ne_nil next others)
          rw [List.map_cons, List.map_cons, Form.intercalate_cons _ _ (by simp)]
          simp only [List.length_append, List.length_cons, List.foldr_cons] at tail ⊢
          omega

theorem length_target (draft : Draft) :
    (Bytes.ofText draft.target).length ≤
      draft.path.utf8ByteSize + draft.querySize + 2 * draft.query.length := by
  rw [ofText_target]
  split
  · rw [Bytes.length_ofText]
    omega
  · next held =>
      have nonempty : draft.query ≠ [] := by
        intro empty
        exact held (by rw [querySize, empty, List.foldr_nil])
      have inside : _ < draft.querySize + 2 * draft.query.length := length_queryText nonempty
      rw [List.length_append, List.length_cons, Bytes.length_ofText]
      omega

theorem querySize_pushQuery (draft : Draft) (key value : String) :
    (draft.pushQuery key value).querySize =
      draft.querySize + (key.utf8ByteSize + value.utf8ByteSize) := by
  simp only [pushQuery, querySize]
  induction draft.query with
  | nil => simp
  | cons pair rest ih =>
      rw [List.cons_append, List.foldr_cons, List.foldr_cons, ih]
      omega

/-- A draft with escaped pairs can be put together, as long as its room is. -/
theorem finish_of_short {draft : Draft} {pairs : List (String × String)} {rest : Bytes}
    (valid : PathAndQuery.isPath draft.path = true)
    (rooted : Bytes.ofText draft.path = '/'.toUInt8 :: rest)
    (written : draft.query = pairs.map encodePair)
    (short : draft.path.utf8ByteSize + draft.querySize + 2 * draft.query.length ≤
      PathAndQuery.maxLength) : ∃ request, draft.finish = .ok request := by
  obtain ⟨parts, read⟩ := ofTail_written valid written
  have parsed : PathAndQuery.parse (Bytes.ofText draft.target) = .ok parts := by
    rw [← read]
    obtain ⟨tail, spelled⟩ : ∃ tail, Bytes.ofText draft.target = '/'.toUInt8 :: tail := by
      rw [ofText_target, rooted]
      split
      · exact ⟨rest, rfl⟩
      · exact ⟨_, rfl⟩
    exact PathAndQuery.parse_rooted spelled (Nat.le_trans (length_target draft) short)
  simp only [finish, parsed]
  exact ⟨_, rfl⟩

end Draft

end SigV4
