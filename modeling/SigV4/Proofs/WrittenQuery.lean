import SigV4.Proofs.Verification
/-!
The signed query on its way. The canonical text holds every pair with its equals sign, while a pair
of two empty sides is sent as nothing at all: it is signed, but no receiver ever sees it. Every
other pair arrives, and so do the parts of the request that are not pairs.
-/
namespace SigV4.Draft
open Canonical

theorem not_mem_lasting (pairs : List (String × String)) : ("", "") ∉ lasting pairs := by
  intro member
  exact of_decide_eq_true (List.mem_filter.mp member).2 rfl

theorem lasting_sortedPairs (pairs : List (String × String)) :
    (lasting (sortedPairs pairs)).Perm (lasting pairs) :=
  (sortedPairs_perm pairs).filter _

theorem lasting_perm {pairs : List (String × String)} :
    (lasting (sortedPairs pairs)).Perm pairs ↔ ("", "") ∉ pairs := by
  constructor
  · intro same member
    exact not_mem_lasting _ (same.mem_iff.mpr member)
  · intro full
    have arrived := lasting_sortedPairs pairs
    rwa [lasting_full full] at arrived

theorem queryText_lasting {pairs : List (String × String)} :
    Canonical.queryText (lasting (sortedPairs pairs)) = Canonical.queryText pairs ↔
      ("", "") ∉ pairs := by
  constructor
  · intro same
    exact lasting_perm.mp (perm_of_sortedQuery (sortedQuery_of_queryText same))
  · intro full
    have kept : ("", "") ∉ sortedPairs pairs := fun member => full (mem_sortedPairs.mp member)
    rw [lasting_full kept, Canonical.queryText, sortedQuery_sortedPairs, Canonical.queryText]

/-- A query that was signed arrives, in another order, but for its pairs of two empty sides. The
receiver finds the pairs that were signed, and their canonical text, just if there were none. -/
theorem signed_query_arrives {request : Request} {authority : Authority}
    (known : request.uri.authority = some authority) :
    ∃ draft, ofRequest request = .ok draft ∧
      ∀ signed, finish { draft with query := sortedQuery draft.query } = .ok signed →
        ∃ received, ofRequest signed = .ok received ∧
          received = { draft with query := received.query } ∧
          received.query.Perm (lasting draft.query) ∧
          (received.query.Perm draft.query ↔ ("", "") ∉ draft.query) ∧
          (Canonical.queryText received.query = Canonical.queryText draft.query ↔
            ("", "") ∉ draft.query) := by
  obtain ⟨draft, taken⟩ : ∃ draft, ofRequest request = .ok draft := ⟨_, ofRequest_eq known⟩
  obtain ⟨_, valid, spelled⟩ := ofRequest_ok taken
  refine ⟨draft, taken, ?_⟩
  intro signed finished
  have read := ofRequest_written finished valid spelled (map_sortedPairs draft.query).symm
  exact ⟨_, read, rfl, lasting_sortedPairs _, lasting_perm, queryText_lasting⟩

-- A listing with a pair of two empty sides, and what is written from it.
def blankDraft (query : List (String × String)) : Draft :=
  { Signer.listingDraft with query := query, headers := .empty }

theorem blank_taken :
    ofRequest (Signer.listing "=&a=1" rfl .empty) = .ok (blankDraft [("", ""), ("a", "1")]) := by
  cbv

theorem blank_finished :
    finish (blankDraft (sortedQuery [("", ""), ("a", "1")])) =
      .ok (Signer.listing "&a=1" rfl .empty) := by
  cbv

theorem blank_pair_stays_behind :
    ∃ received, ofRequest (Signer.listing "&a=1" rfl .empty) = .ok received ∧
      received.query.Perm (lasting [("", ""), ("a", "1")]) := by
  have known : (Signer.listing "=&a=1" rfl .empty).uri.authority =
      some Signer.listingDraft.authority := rfl
  obtain ⟨draft, taken, arrives⟩ := signed_query_arrives known
  have same := Except.ok.inj (taken.symm.trans blank_taken)
  subst same
  obtain ⟨received, read, _, arrived, _⟩ := arrives _ blank_finished
  exact ⟨received, read, arrived⟩

theorem blank_pair_not_received :
    ofRequest (Signer.listing "=&a=1" rfl .empty) = .ok (blankDraft [("", ""), ("a", "1")]) ∧
      finish (blankDraft (sortedQuery [("", ""), ("a", "1")])) =
        .ok (Signer.listing "&a=1" rfl .empty) ∧
      ofRequest (Signer.listing "&a=1" rfl .empty) = .ok (blankDraft [("a", "1")]) ∧
      ¬ [("a", "1")].Perm [("", ""), ("a", "1")] ∧
      Canonical.queryText [("a", "1")] ≠ Canonical.queryText [("", ""), ("a", "1")] := by
  have shorter : ¬ [("a", "1")].Perm [("", ""), ("a", "1")] :=
    fun same => absurd same.length_eq (by decide)
  refine ⟨blank_taken, blank_finished, ?read, shorter, ?text⟩
  case read => cbv
  case text => exact fun same => shorter (perm_of_sortedQuery (sortedQuery_of_queryText same))

end SigV4.Draft
