import SigV4.Proofs.PresignedParameters
/-!
The octets of a query on their way through a signing. A query is read as text before it is written
again, and octets that are no UTF-8 are replaced by what stands for a defect. So each pair arrives
as the octets of the text that it is read as; it is unchanged just if both of its sides are UTF-8.
-/
namespace SigV4

def Bytes.IsText (octets : Bytes) : Prop := ∃ text, ofText text = octets

namespace Utf8

theorem decodeLossy_eq_empty {octets : Bytes} : decodeLossy octets = "" ↔ octets = [] := by
  constructor
  · intro empty
    unfold decodeLossy at empty
    split at empty
    · next text spelled => rw [← Bytes.ofText_of_text? spelled, empty]; rfl
    · cases octets with
      | nil => rfl
      | cons lead rest =>
          have nothing := congrArg String.toList empty
          rw [String.toList_ofList, replaced] at nothing
          cases front : Utf8.front lead rest <;> simp [front] at nothing
  · rintro rfl
    rfl

theorem ofText_decodeLossy {octets : Bytes} :
    Bytes.ofText (decodeLossy octets) = octets ↔ octets.IsText := by
  constructor
  · intro same
    exact ⟨_, same⟩
  · rintro ⟨text, rfl⟩
    rw [decodeLossy_ofText]

end Utf8

namespace Form

/-- The octets that the pairs of a query stand for, before any of them is read as text. What is
empty on both sides is left out. -/
def octetPairs (bytes : Bytes) : List (Bytes × Bytes) :=
  (((split '&'.toUInt8 bytes).map (cut '='.toUInt8)).map fun (key, value) =>
    (decodeBytes key, decodeBytes value)).filter (· ≠ ([], []))

def readPair (pair : Bytes × Bytes) : String × String :=
  (Utf8.decodeLossy pair.1, Utf8.decodeLossy pair.2)

def writtenPair (pair : String × String) : Bytes × Bytes :=
  (Bytes.ofText pair.1, Bytes.ofText pair.2)

def settle (pair : Bytes × Bytes) : Bytes × Bytes := writtenPair (readPair pair)

theorem settle_eq_iff {pair : Bytes × Bytes} :
    settle pair = pair ↔ pair.1.IsText ∧ pair.2.IsText := by
  rw [← Utf8.ofText_decodeLossy, ← Utf8.ofText_decodeLossy, Prod.ext_iff]
  rfl

theorem isText_writtenPair (pair : String × String) :
    (writtenPair pair).1.IsText ∧ (writtenPair pair).2.IsText :=
  ⟨⟨_, rfl⟩, ⟨_, rfl⟩⟩

/-- Pairs stay what they are, one by one or as a whole, just if all of their sides are UTF-8. -/
theorem perm_map_settle {pairs : List (Bytes × Bytes)} :
    (pairs.map settle).Perm pairs ↔ ∀ pair ∈ pairs, pair.1.IsText ∧ pair.2.IsText := by
  constructor
  · intro same pair member
    obtain ⟨before, _, rfl⟩ := List.mem_map.mp (same.mem_iff.mpr member)
    exact isText_writtenPair (readPair before)
  · intro texts
    rw [List.map_congr_left fun pair member => settle_eq_iff.mpr (texts pair member), List.map_id']

theorem octetPairs_eq (bytes : Bytes) :
    octetPairs bytes =
      ((pieces bytes).map fun (key, value) => (decodeBytes key, decodeBytes value)).filter
        (· ≠ ([], [])) := by
  unfold octetPairs pieces
  simp only [List.map_map, List.filter_map, List.filter_filter]
  congr 1
  refine List.filter_congr fun piece _ => ?_
  cases piece with
  | nil => rfl
  | cons octet rest => simp

/-- A pair that is not empty is read as one that is not. -/
theorem lasting_parse (bytes : Bytes) :
    Draft.lasting (parse bytes) = (octetPairs bytes).map readPair := by
  rw [octetPairs_eq, parse, Draft.lasting, List.filter_map, List.filter_map, List.map_map]
  congr 1
  refine List.filter_congr fun piece _ => ?_
  have empty : (decode piece.1, decode piece.2) = ("", "") ↔
      (decodeBytes piece.1, decodeBytes piece.2) = ([], []) := by
    simp only [Prod.mk.injEq, decode, Utf8.decodeLossy_eq_empty]
  exact decide_eq_decide.mpr (not_congr empty)

theorem writtenPair_injective : Function.Injective writtenPair := by
  intro left right same
  obtain ⟨keys, values⟩ := Prod.mk.inj same
  exact Prod.ext (Bytes.ofText_injective keys) (Bytes.ofText_injective values)

/-- The octets of what is written are those of the pairs. -/
theorem octetPairs_queryText (pairs : List (String × String)) :
    octetPairs (Bytes.ofText (Draft.queryText (pairs.map Canonical.encodePair))) =
      (Draft.lasting pairs).map writtenPair := by
  rw [octetPairs_eq, Draft.pieces_queryText, List.map_map]
  simp only [Function.comp_def, Canonical.encodePair, decodeBytes_encodeText]
  refine List.filter_eq_self.mpr fun octets member => decide_eq_true ?_
  obtain ⟨pair, kept, rfl⟩ := List.mem_map.mp member
  intro empty
  have blank : pair = ("", "") := writtenPair_injective empty
  exact of_decide_eq_true (List.mem_filter.mp kept).2 blank

end Form

namespace PathAndQuery

def octetPairs (parts : PathAndQuery) : List (Bytes × Bytes) :=
  match parts.query with
  | some query => Form.octetPairs (Bytes.ofText query)
  | none => []

theorem lasting_pairs (parts : PathAndQuery) :
    Draft.lasting parts.pairs = parts.octetPairs.map Form.readPair := by
  rw [pairs, octetPairs]
  cases parts.query with
  | none => rfl
  | some query => exact Form.lasting_parse _

end PathAndQuery

namespace Draft

theorem octetPairs_finish {draft : Draft} {pairs : List (String × String)} {request : Request}
    (finished : draft.finish = .ok request) (valid : PathAndQuery.isPath draft.path = true)
    (written : draft.query = pairs.map Canonical.encodePair) :
    request.uri.pathAndQuery.octetPairs = (lasting pairs).map Form.writtenPair := by
  obtain ⟨parts, parsed, rfl⟩ := finish_ok finished
  obtain ⟨_, query⟩ := ofTail_written_target valid written (PathAndQuery.ofTail_of_parse parsed)
  rw [PathAndQuery.octetPairs, query]
  by_cases nothing : draft.querySize = 0
  · rw [if_pos nothing, lasting_of_querySize written nothing]
    rfl
  · rw [if_neg nothing]
    exact Form.octetPairs_queryText pairs

end Draft

def SigningOutput.added (output : SigningOutput) (credential : Credential) :
    Placement → List (String × String)
  | .header => []
  | .query expiry => Draft.spread (output.table credential expiry)

namespace Signer

variable {signer : Signer} {request : Request} {body : Option Bytes} {credential : Credential}
  {placement : Placement} {clock : Clock} {output : SigningOutput}

/-- Whatever is signed is written with the pairs that the request has and those that are added. -/
theorem written_of_done
    (done : (signer.sign request body credential placement clock).result = .ok output) :
    ∃ (draft : Draft) (pairs : List (String × String)),
      draft.finish = .ok (signer.sign request body credential placement clock).request ∧
      PathAndQuery.isPath draft.path = true ∧ draft.query = pairs.map Canonical.encodePair ∧
      pairs.Perm (request.uri.pathAndQuery.pairs ++ output.added credential placement) := by
  obtain ⟨draft, hash, canonical, prepared, built, placed, signedHeaders, _, covered⟩ :=
    course_of_done done
  cases placement with
  | header =>
      obtain ⟨source, token, checksum, taken, _, _, _, rfl⟩ := prepare_header_ok prepared
      obtain ⟨query, valid, _⟩ := Draft.ofRequest_ok taken
      obtain ⟨value, _, finished⟩ := place_header_iff.mp placed
      refine ⟨_, Canonical.sortedPairs source.query, finished, valid, ?_, ?_⟩
      · exact (Canonical.map_sortedPairs _).symm
      · rw [← query, SigningOutput.added, List.append_nil]
        exact Canonical.sortedPairs_perm _
  | query expiry =>
      obtain ⟨source, taken, ready⟩ := prepare_query prepared
      obtain ⟨query, valid, _⟩ := Draft.ofRequest_ok taken
      refine ⟨_, _, place_query placed, ready.path ▸ valid, rfl, ?_⟩
      rw [SigningOutput.added, SigningOutput.spread_table
        (signedHeaders.trans (Canonical.signedHeaders_ofDraft built)) covered.signature, ← query,
        addedPairs, ← List.append_assoc, ← ready.query]
      exact (Canonical.sortedPairs_perm draft.query).append_right _

theorem full_added (output : SigningOutput) (credential : Credential) (placement : Placement) :
    ("", "") ∉ output.added credential placement := by
  cases placement with
  | header => exact List.not_mem_nil
  | query expiry =>
      intro member
      have named := Draft.names_spread (List.mem_map_of_mem member)
      obtain ⟨row, listed, blank⟩ := List.mem_map.mp named
      exact SigningOutput.named_of_mem_table listed blank

theorem octetPairs_of_done
    (done : (signer.sign request body credential placement clock).result = .ok output) :
    (signer.sign request body credential placement clock).request.uri.pathAndQuery.octetPairs.Perm
      (request.uri.pathAndQuery.octetPairs.map Form.settle ++
        (output.added credential placement).map Form.writtenPair) := by
  obtain ⟨draft, pairs, finished, valid, written, perm⟩ := written_of_done done
  rw [Draft.octetPairs_finish finished valid written]
  have lasting : (Draft.lasting pairs).Perm
      (request.uri.pathAndQuery.octetPairs.map Form.readPair ++
        output.added credential placement) := by
    have kept := perm.filter (· ≠ ("", ""))
    rw [List.filter_append] at kept
    rw [← PathAndQuery.lasting_pairs, ← Draft.lasting_full (full_added output credential placement)]
    exact kept
  have octets := lasting.map Form.writtenPair
  rwa [List.map_append, List.map_map] at octets

/-- Whatever is sent in a query is text. -/
theorem isText_of_done
    (done : (signer.sign request body credential placement clock).result = .ok output)
    {pair : Bytes × Bytes} (member : pair ∈ (signer.sign request body credential placement
      clock).request.uri.pathAndQuery.octetPairs) : pair.1.IsText ∧ pair.2.IsText := by
  obtain ⟨draft, pairs, finished, valid, written, _⟩ := written_of_done done
  rw [Draft.octetPairs_finish finished valid written] at member
  obtain ⟨read, _, rfl⟩ := List.mem_map.mp member
  exact Form.isText_writtenPair read

/-- Every pair of the query arrives as the text that it is read as. The query is carried over as it
is, beside what is added, just if all sides of its pairs are UTF-8. -/
theorem query_carried_iff_text (signing : Signing)
    (called : signer.sign request body credential placement clock = signing)
    (done : signing.result = .ok output) :
    signing.request.uri.pathAndQuery.octetPairs.Perm
      (request.uri.pathAndQuery.octetPairs.map Form.settle ++
        (output.added credential placement).map Form.writtenPair) ∧
    (signing.request.uri.pathAndQuery.octetPairs.Perm
        (request.uri.pathAndQuery.octetPairs ++
          (output.added credential placement).map Form.writtenPair) ↔
      ∀ pair ∈ request.uri.pathAndQuery.octetPairs, pair.1.IsText ∧ pair.2.IsText) := by
  subst called
  have arrived := octetPairs_of_done done
  refine ⟨arrived, ?_⟩
  rw [← Form.perm_map_settle]
  constructor
  · intro carried
    exact (List.perm_append_right_iff _).mp (arrived.symm.trans carried)
  · intro same
    exact arrived.trans (same.append_right _)

theorem guest_query_carried :
    ∃ output, invited.result = .ok output ∧
      invited.request.uri.pathAndQuery.octetPairs.Perm
        ([(Bytes.ofText "prefix", Bytes.ofText "a b"), (Bytes.ofText "list", Bytes.ofText "")] ++
          (output.added guestKeys guestPlacement).map Form.writtenPair) := by
  obtain ⟨output, done⟩ := guest_signed
  obtain ⟨_, carried⟩ := query_carried_iff_text invited rfl done
  have octets : (listing "prefix=a+b&list" rfl .empty).uri.pathAndQuery.octetPairs =
      [(Bytes.ofText "prefix", Bytes.ofText "a b"), (Bytes.ofText "list", Bytes.ofText "")] := by
    decide +kernel
  rw [octets] at carried
  refine ⟨output, done, carried.mpr ?_⟩
  simp only [List.forall_mem_cons]
  exact ⟨⟨⟨_, rfl⟩, ⟨_, rfl⟩⟩, ⟨⟨_, rfl⟩, ⟨_, rfl⟩⟩, fun _ none => absurd none List.not_mem_nil⟩

-- A visit whose query holds an octet that is no text.
def brokenVisit : Request := listing "a=%FF" rfl .empty

def brokenVisited : Signing := Presigning.invitation.sign brokenVisit

theorem brokenVisit_signed : ∃ output, brokenVisited.result = .ok output := by
  have taken : Draft.ofRequest brokenVisit =
      .ok { listingDraft with query := [("a", "\uFFFD")], headers := .empty } := by
    cbv
  obtain ⟨output, done, _⟩ := Presigning.invited_of_taken taken rfl (Nat.le_of_ble_eq_true rfl)
  exact ⟨output, done⟩

theorem broken_query_rewritten :
    ∃ output, brokenVisited.result = .ok output ∧
      brokenVisit.uri.pathAndQuery.octetPairs = [(Bytes.ofText "a", [0xFF])] ∧
      (Bytes.ofText "a", [0xEF, 0xBF, 0xBD]) ∈ brokenVisited.request.uri.pathAndQuery.octetPairs ∧
      (Bytes.ofText "a", [0xFF]) ∉ brokenVisited.request.uri.pathAndQuery.octetPairs := by
  obtain ⟨output, done⟩ := brokenVisit_signed
  have octets : brokenVisit.uri.pathAndQuery.octetPairs = [(Bytes.ofText "a", [0xFF])] := by
    decide +kernel
  have settled : Form.settle (Bytes.ofText "a", [0xFF]) =
      (Bytes.ofText "a", [0xEF, 0xBF, 0xBD]) := by
    decide +kernel
  have defect : Bytes.text? [0xFF] = none := by decide +kernel
  refine ⟨output, done, octets, ?rewritten, ?lost⟩
  case rewritten =>
    have member : (Bytes.ofText "a", [0xFF]) ∈ brokenVisit.uri.pathAndQuery.octetPairs := by
      rw [octets]
      exact List.mem_singleton_self _
    have sent := List.mem_map_of_mem (f := Form.settle) member
    rw [settled] at sent
    exact (octetPairs_of_done done).mem_iff.mpr (List.mem_append_left _ sent)
  case lost =>
    intro member
    obtain ⟨_, text, same⟩ := isText_of_done done member
    have read := Bytes.text?_ofText text
    rw [same] at read
    exact Option.some_ne_none text (read.symm.trans defect)

end Signer

end SigV4
