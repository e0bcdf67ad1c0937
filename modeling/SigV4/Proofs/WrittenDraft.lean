import SigV4.Proofs.SortedQuery
import SigV4.Proofs.Success
/-!
A draft that is put together again is read back from what is written. Its pairs are written
escaped, an empty value without its equals sign; a reader finds the pairs themselves in the order in
which they were written. Only a pair of two empty sides leaves no trace.
-/
namespace SigV4

namespace PathAndQuery

theorem ofParts?_some {path : Bytes} {query : Option Bytes} {parts : PathAndQuery}
    (found : ofParts? path query = some parts) :
    Bytes.ofText parts.path = path ∧ parts.query.map Bytes.ofText = query := by
  unfold ofParts? at found
  split at found
  · next text decoded =>
      split at found
      · rw [← Option.some.inj found]
        exact ⟨Bytes.ofText_of_text? decoded, rfl⟩
      · contradiction
  · next text spelled decoded =>
      split at found
      · next tail read =>
          split at found
          · rw [← Option.some.inj found]
            exact ⟨Bytes.ofText_of_text? decoded, congrArg some (Bytes.ofText_of_text? read)⟩
          · contradiction
      · contradiction
  · contradiction

theorem ofTail_unmarked {path : Bytes} (noFragment : '#'.toUInt8 ∉ path)
    (noQuery : '?'.toUInt8 ∉ path) :
    ofTail path = (ofParts? path none).elim (.error .invalidCharacter) .ok := by
  have whole := congrArg Prod.fst (Form.cut_alone noFragment)
  have alone := congrArg Prod.fst (Form.cut_alone noQuery)
  simp only [Form.cut] at whole alone
  simp only [ofTail, whole, alone, List.drop_length]
  cases ofParts? path none with
  | none => rfl
  | some parts => rfl

theorem ofTail_marked {path query : Bytes} (noFragment : '#'.toUInt8 ∉ path)
    (noQuery : '?'.toUInt8 ∉ path) (free : '#'.toUInt8 ∉ query) :
    ofTail (path ++ '?'.toUInt8 :: query) =
      (ofParts? path (some query)).elim (.error .invalidCharacter) .ok := by
  have unmarked : '#'.toUInt8 ∉ path ++ '?'.toUInt8 :: query := by
    intro member
    rcases List.mem_append.mp member with inside | later
    · exact noFragment inside
    rcases List.mem_cons.mp later with mark | inside
    · contradiction
    · exact free inside
  have whole := congrArg Prod.fst (Form.cut_alone unmarked)
  have front := congrArg Prod.fst (Form.cut_joined noQuery query)
  simp only [Form.cut] at whole front
  simp only [ofTail, whole, front, List.drop_left]
  cases ofParts? path (some query) with
  | none => rfl
  | some parts => rfl

/-- A path alone has no query. -/
theorem ofTail_path {path : Bytes} {parts : PathAndQuery} (noFragment : '#'.toUInt8 ∉ path)
    (noQuery : '?'.toUInt8 ∉ path) (read : ofTail path = .ok parts) :
    Bytes.ofText parts.path = path ∧ parts.query = none := by
  rw [ofTail_unmarked noFragment noQuery] at read
  obtain ⟨spelled, query⟩ := ofParts?_some (Success.elim_ok.mp read)
  exact ⟨spelled, Option.map_eq_none_iff.mp query⟩

theorem ofTail_query {path query : Bytes} {parts : PathAndQuery}
    (noFragment : '#'.toUInt8 ∉ path) (noQuery : '?'.toUInt8 ∉ path)
    (free : '#'.toUInt8 ∉ query) (read : ofTail (path ++ '?'.toUInt8 :: query) = .ok parts) :
    Bytes.ofText parts.path = path ∧ parts.query.map Bytes.ofText = some query := by
  rw [ofTail_marked noFragment noQuery free] at read
  exact ofParts?_some (Success.elim_ok.mp read)

theorem ofTail_of_parse {octets : Bytes} {parts : PathAndQuery} (read : parse octets = .ok parts) :
    ofTail octets = .ok parts := by
  unfold parse at read
  split at read
  · contradiction
  split at read
  · contradiction
  split at read
  · exact read
  · contradiction

def pairs (parts : PathAndQuery) : List (String × String) :=
  match parts.query with
  | some query => Form.parse (Bytes.ofText query)
  | none => []

theorem isPath_root : isPath "/" = true := rfl

theorem not_mem_path {path : String} {octet : UInt8} (valid : isPath path = true)
    (other : isPathByte octet = false) : octet ∉ Bytes.ofText path :=
  Bytes.not_mem_of_class (List.all_eq_true.mp valid) other

end PathAndQuery

namespace Form

/-- An escaped side of a pair stands for the octets of its text; a plus sign is always escaped. -/
theorem decodeBytes_encodeText (text : String) :
    decodeBytes (Bytes.ofText (Percent.encodeText Percent.isUnreserved text)) =
      Bytes.ofText text := by
  rw [Percent.ofText_encodeText_query, decodeBytes]
  have kept : ∀ octet ∈ Percent.encode Percent.isUnreserved (Bytes.ofText text),
      plusToSpace octet = octet := by
    intro octet member
    refine if_neg fun plus => ?_
    exact Percent.not_mem_encode rfl (Bytes.ofText text) (plus ▸ member)
  rw [List.map_congr_left kept, List.map_id', Percent.decode_encode rfl]

theorem decode_encodeText (text : String) :
    decode (Bytes.ofText (Percent.encodeText Percent.isUnreserved text)) = text := by
  rw [decode, decodeBytes_encodeText, Utf8.decodeLossy_ofText]

end Form

namespace Draft
open Canonical

theorem encodeText_eq_empty {text : String}
    (empty : Percent.encodeText Percent.isUnreserved text = "") : text = "" := by
  have blank : Percent.encodeText Percent.isUnreserved "" = "" := rfl
  exact Percent.encodeText_query_injective (empty.trans blank.symm)

theorem ofText_pairText (pair : String × String) :
    Bytes.ofText (pairText pair) =
      if pair.2 = "" then Bytes.ofText pair.1 else pairOctets pair := by
  have equals : Bytes.ofText "=" = ['='.toUInt8] := rfl
  unfold pairText
  split
  · rfl
  · simp [pairOctets, equals]

theorem isPairByte_of_mem_pairText {pair : String × String} {octet : UInt8}
    (member : octet ∈ Bytes.ofText (pairText (encodePair pair))) : isPairByte octet = true := by
  rw [ofText_pairText] at member
  split at member
  · exact isPairByte_of_mem (List.mem_append_left _ member)
  · exact isPairByte_of_mem member

theorem isPairByte_of_mem_written {pairs : List (String × String)} :
    ∀ piece ∈ ((pairs.map encodePair).map pairText).map Bytes.ofText, ∀ octet ∈ piece,
      isPairByte octet = true := by
  intro piece member octet inside
  rw [List.map_map, List.map_map] at member
  obtain ⟨pair, _, rfl⟩ := List.mem_map.mp member
  exact isPairByte_of_mem_pairText inside

theorem ofText_queryText (query : List (String × String)) :
    Bytes.ofText (queryText query) =
      List.intercalate ['&'.toUInt8] ((query.map pairText).map Bytes.ofText) := by
  have ampersand : Bytes.ofText "&" = ['&'.toUInt8] := rfl
  rw [queryText, Bytes.ofText_intercalate, ampersand]

theorem isQueryByte_of_mem_written {pairs : List (String × String)} {octet : UInt8}
    (member : octet ∈ Bytes.ofText (queryText (pairs.map encodePair))) : isQueryByte octet = true := by
  rw [ofText_queryText] at member
  exact isQueryByte_of_mem_joined isPairByte_of_mem_written member

theorem ofText_target (draft : Draft) :
    Bytes.ofText draft.target =
      if draft.querySize = 0 then Bytes.ofText draft.path
      else Bytes.ofText draft.path ++ '?'.toUInt8 :: Bytes.ofText (queryText draft.query) := by
  have mark : Bytes.ofText "?" = ['?'.toUInt8] := rfl
  unfold target
  split
  · rfl
  · rw [Bytes.ofText_append, Bytes.ofText_append, mark, List.append_assoc, List.singleton_append]

-- Both spellings of a pair, with and without its equals sign, are cut into the same two sides.
theorem cut_pairText (pair : String × String) :
    Form.cut '='.toUInt8 (Bytes.ofText (pairText (encodePair pair))) =
      (Bytes.ofText (encodePair pair).1, Bytes.ofText (encodePair pair).2) := by
  have free := equals_not_mem_key pair
  rw [ofText_pairText]
  by_cases empty : (encodePair pair).2 = ""
  · rw [if_pos empty, Form.cut_alone free, empty]
    rfl
  · rw [if_neg empty, pairOctets, Form.cut_joined free]

theorem pairText_eq_nil {pair : String × String} :
    Bytes.ofText (pairText (encodePair pair)) = [] ↔ pair = ("", "") := by
  constructor
  · intro nothing
    rw [ofText_pairText] at nothing
    split at nothing
    · next noValue =>
        have noKey : (encodePair pair).1 = "" := Bytes.ofText_injective nothing
        exact Prod.ext (encodeText_eq_empty noKey) (encodeText_eq_empty noValue)
    · simp [pairOctets] at nothing
  · rintro rfl
    rfl

/-- The pairs that leave a trace in what is written. -/
def lasting (pairs : List (String × String)) : List (String × String) :=
  pairs.filter (· ≠ ("", ""))

theorem lasting_full {pairs : List (String × String)} (full : ("", "") ∉ pairs) :
    lasting pairs = pairs := by
  rw [lasting, List.filter_eq_self]
  intro pair member
  exact decide_eq_true fun same => full (same ▸ member)

/-- Pairs are written in their order, and a reader finds as many pieces as there are pairs that
leave a trace. -/
theorem pieces_queryText (pairs : List (String × String)) :
    Form.pieces (Bytes.ofText (queryText (pairs.map encodePair))) =
      (lasting pairs).map fun pair =>
        (Bytes.ofText (encodePair pair).1, Bytes.ofText (encodePair pair).2) := by
  have kept : ∀ pair, (!(Bytes.ofText (pairText (encodePair pair))).isEmpty) =
      decide (pair ≠ ("", "")) := by
    intro pair
    rw [Bool.eq_iff_iff]
    simp [pairText_eq_nil]
  rw [Form.pieces, ofText_queryText, Form.filter_split_intercalate]
  · simp only [List.map_map, List.filter_map, Function.comp_def, kept, cut_pairText, lasting]
  · intro piece member
    exact Bytes.not_mem_of_class (isPairByte_of_mem_written piece member) rfl

/-- Pairs are read back in the order in which they are written. -/
theorem parse_queryText (pairs : List (String × String)) :
    Form.parse (Bytes.ofText (queryText (pairs.map encodePair))) = lasting pairs := by
  rw [Form.parse, pieces_queryText, List.map_map]
  simp only [Function.comp_def, encodePair, Form.decode_encodeText, List.map_id']

theorem pairs_empty_of_querySize {draft : Draft} (nothing : draft.querySize = 0) :
    ∀ pair ∈ draft.query, pair = ("", "") := by
  unfold querySize at nothing
  generalize draft.query = pairs at nothing ⊢
  induction pairs with
  | nil => exact fun _ member => absurd member List.not_mem_nil
  | cons first rest ih =>
      simp only [List.foldr_cons, Nat.add_eq_zero_iff] at nothing
      obtain ⟨⟨key, value⟩, tail⟩ := nothing
      intro pair member
      rcases List.mem_cons.mp member with rfl | later
      · exact Prod.ext (String.utf8ByteSize_eq_zero_iff.mp key)
          (String.utf8ByteSize_eq_zero_iff.mp value)
      · exact ih tail pair later

theorem finish_ok {draft : Draft} {request : Request} (finished : draft.finish = .ok request) :
    ∃ target, PathAndQuery.parse (Bytes.ofText draft.target) = .ok target ∧
      request = ⟨draft.method, ⟨some draft.scheme, some draft.authority, target⟩, draft.headers⟩ := by
  obtain ⟨target, parsed, finished⟩ := Success.bind_ok.mp finished
  obtain ⟨uri, joined, finished⟩ := Success.bind_ok.mp finished
  have parts := Success.mapError_ok.mp joined
  simp only [Uri.ofParts, Option.getD_some, Except.ok.injEq] at parts
  refine ⟨target, Success.mapError_ok.mp parsed, ?_⟩
  rw [parts]
  exact (Except.ok.inj finished).symm

theorem ofRequest_eq {request : Request} {authority : Authority}
    (known : request.uri.authority = some authority) :
    ofRequest request = .ok
      { method := request.method
        scheme := request.uri.scheme.getD .http
        authority := authority
        path := request.uri.pathAndQuery.requestPath
        query := request.uri.pathAndQuery.pairs
        headers := request.headers } := by
  rw [ofRequest, known]
  rfl

theorem ofRequest_iff {request : Request} {draft : Draft} :
    ofRequest request = .ok draft ↔
      ∃ authority, request.uri.authority = some authority ∧
        draft =
          { method := request.method
            scheme := request.uri.scheme.getD .http
            authority := authority
            path := request.uri.pathAndQuery.requestPath
            query := request.uri.pathAndQuery.pairs
            headers := request.headers } := by
  constructor
  · intro taken
    cases known : request.uri.authority with
    | none =>
        rw [ofRequest, known] at taken
        contradiction
    | some authority =>
        rw [ofRequest_eq known] at taken
        exact ⟨authority, rfl, (Except.ok.inj taken).symm⟩
  · rintro ⟨authority, known, rfl⟩
    exact ofRequest_eq known

theorem ofRequest_ok {request : Request} {draft : Draft} (taken : ofRequest request = .ok draft) :
    draft.query = request.uri.pathAndQuery.pairs ∧
      PathAndQuery.isPath draft.path = true ∧ draft.path ≠ "" := by
  obtain ⟨authority, _, rfl⟩ := ofRequest_iff.mp taken
  refine ⟨rfl, ?_⟩
  simp only [PathAndQuery.requestPath]
  split
  · exact ⟨PathAndQuery.isPath_root, by decide⟩
  · next full => exact ⟨request.uri.pathAndQuery.path_ok, full⟩

theorem lasting_of_querySize {draft : Draft} {pairs : List (String × String)}
    (written : draft.query = pairs.map encodePair) (nothing : draft.querySize = 0) :
    lasting pairs = [] := by
  rw [lasting, List.filter_eq_nil_iff]
  intro pair member
  have sides : encodePair pair = ("", "") := pairs_empty_of_querySize nothing _
    (written ▸ List.mem_map_of_mem member)
  have same : pair = ("", "") := Prod.ext
    (encodeText_eq_empty (congrArg Prod.fst sides)) (encodeText_eq_empty (congrArg Prod.snd sides))
  simp [same]

/-- Path and query are read as they were written. -/
theorem ofTail_written_target {draft : Draft} {pairs : List (String × String)}
    {parts : PathAndQuery} (valid : PathAndQuery.isPath draft.path = true)
    (written : draft.query = pairs.map encodePair)
    (read : PathAndQuery.ofTail (Bytes.ofText draft.target) = .ok parts) :
    parts.path = draft.path ∧
      parts.query =
        if draft.querySize = 0 then none else some (queryText (pairs.map encodePair)) := by
  have noFragment : '#'.toUInt8 ∉ Bytes.ofText draft.path := PathAndQuery.not_mem_path valid rfl
  have noQuery : '?'.toUInt8 ∉ Bytes.ofText draft.path := PathAndQuery.not_mem_path valid rfl
  rw [ofText_target] at read
  split at read
  · next nothing =>
      obtain ⟨path, query⟩ := PathAndQuery.ofTail_path noFragment noQuery read
      exact ⟨Bytes.ofText_injective path, query.trans (if_pos nothing).symm⟩
  · next something =>
      have free : '#'.toUInt8 ∉ Bytes.ofText (queryText draft.query) :=
        written ▸ Bytes.not_mem_of_class (fun _ => isQueryByte_of_mem_written) rfl
      obtain ⟨path, query⟩ := PathAndQuery.ofTail_query noFragment noQuery free read
      obtain ⟨text, found, octets⟩ := Option.map_eq_some_iff.mp query
      rw [if_neg something, found, Bytes.ofText_injective octets, written]
      exact ⟨Bytes.ofText_injective path, rfl⟩

theorem ofTail_target {draft : Draft} {pairs : List (String × String)} {parts : PathAndQuery}
    (valid : PathAndQuery.isPath draft.path = true) (written : draft.query = pairs.map encodePair)
    (read : PathAndQuery.ofTail (Bytes.ofText draft.target) = .ok parts) :
    parts.path = draft.path ∧ parts.pairs = lasting pairs := by
  obtain ⟨path, query⟩ := ofTail_written_target valid written read
  refine ⟨path, ?_⟩
  rw [PathAndQuery.pairs, query]
  by_cases nothing : draft.querySize = 0
  · rw [if_pos nothing, lasting_of_querySize written nothing]
  · rw [if_neg nothing]
    exact parse_queryText pairs

/-- What is finished with its pairs escaped is taken apart to the same draft, with those pairs
themselves. -/
theorem ofRequest_written {draft : Draft} {pairs : List (String × String)} {request : Request}
    (finished : draft.finish = .ok request) (valid : PathAndQuery.isPath draft.path = true)
    (spelled : draft.path ≠ "") (written : draft.query = pairs.map encodePair) :
    ofRequest request = .ok { draft with query := lasting pairs } := by
  obtain ⟨parts, parsed, rfl⟩ := finish_ok finished
  obtain ⟨path, read⟩ := ofTail_target valid written (PathAndQuery.ofTail_of_parse parsed)
  rw [ofRequest_eq rfl, PathAndQuery.requestPath, path, if_neg spelled, read]
  rfl

/-- The signed order is one of the orders in which pairs can be written. -/
theorem ofRequest_finish {draft : Draft} {pairs : List (String × String)} {request : Request}
    (valid : PathAndQuery.isPath draft.path = true) (spelled : draft.path ≠ "")
    (full : ("", "") ∉ pairs) (sorted : draft.query = sortedQuery pairs)
    (finished : draft.finish = .ok request) :
    ofRequest request = .ok { draft with query := sortedPairs pairs } := by
  have kept : ("", "") ∉ sortedPairs pairs := fun member => full (mem_sortedPairs.mp member)
  have read := ofRequest_written finished valid spelled (sorted.trans (map_sortedPairs pairs).symm)
  rwa [lasting_full kept] at read

end Draft

end SigV4
