import Mathlib
import SigV4.Proofs.CanonicalText
import SigV4.Proofs.SortedQuery
/-!
Canonical requests of drafts. Drafts are compared by what is signed of them: the method, the
decoded path, the pairs of the query in whatever order, the joined values of the signed headers
and the hash of the payload. The canonical text says no less, so it is evidence of tampering.
-/
namespace SigV4.Canonical

def rooted (path : String) : String := if path = "" then "/" else path

def signedValues (draft : Draft) : Except Fault (List (HeaderName × String)) :=
  (draft.headers.namesExcept unsignedHeaders).mapM fun name =>
    (draft.headerJoined name).map (name, ·)

structure Agree (left right : Draft) (leftHash rightHash : PayloadHash) : Prop where
  methods : left.method = right.method
  paths : ∃ leftPath rightPath, left.decodedPath = .ok leftPath ∧
    right.decodedPath = .ok rightPath ∧ rooted leftPath = rooted rightPath
  queries : left.query.Perm right.query
  headers : ∃ headers, signedValues left = .ok headers ∧ signedValues right = .ok headers
  hashes : leftHash.text = rightHash.text

theorem ofDraft_eq (draft : Draft) (hash : PayloadHash) :
    ofDraft draft hash = do
      let decoded ← draft.decodedPath
      let headers ← signedValues draft
      return ⟨draft.method.text, pathText decoded, queryText draft.query, headers, hash.text⟩ := by
  simp only [ofDraft, signedValues, Success.mapM_zip]
  cases draft.decodedPath with
  | error fault => rfl
  | ok decoded =>
      cases (draft.headers.namesExcept unsignedHeaders).mapM draft.headerJoined with
      | error fault => rfl
      | ok values => rfl

theorem ofDraft_ok {draft : Draft} {hash : PayloadHash} {canonical : Canonical}
    (built : ofDraft draft hash = .ok canonical) :
    ∃ decoded headers, draft.decodedPath = .ok decoded ∧ signedValues draft = .ok headers ∧
      canonical =
        ⟨draft.method.text, pathText decoded, queryText draft.query, headers, hash.text⟩ := by
  rw [ofDraft_eq] at built
  obtain ⟨decoded, path, built⟩ := Success.bind_ok.mp built
  obtain ⟨headers, read, built⟩ := Success.bind_ok.mp built
  exact ⟨decoded, headers, path, read, (Except.ok.inj built).symm⟩

theorem query_ofDraft {draft : Draft} {hash : PayloadHash} {canonical : Canonical}
    (built : ofDraft draft hash = .ok canonical) : canonical.query = queryText draft.query := by
  obtain ⟨decoded, headers, _, _, rfl⟩ := ofDraft_ok built
  rfl

theorem names_signedValues {draft : Draft} {headers : List (HeaderName × String)}
    (read : signedValues draft = .ok headers) :
    headers.map (·.1) = draft.headers.namesExcept unsignedHeaders := by
  rw [signedValues, Success.mapM_zip] at read
  obtain ⟨values, joined, rfl⟩ := Success.map_ok.mp read
  have width := (Success.mapM_ok.mp joined).length_eq
  exact List.map_fst_zip (Nat.le_of_eq width)

theorem names_ofDraft {draft : Draft} {hash : PayloadHash} {canonical : Canonical}
    (built : ofDraft draft hash = .ok canonical) :
    canonical.headers.map (·.1) = draft.headers.namesExcept unsignedHeaders := by
  obtain ⟨decoded, headers, _, read, rfl⟩ := ofDraft_ok built
  exact names_signedValues read

theorem payloadHash_ofDraft {draft : Draft} {hash : PayloadHash} {canonical : Canonical}
    (built : ofDraft draft hash = .ok canonical) : canonical.payloadHash = hash.text := by
  obtain ⟨decoded, headers, _, _, rfl⟩ := ofDraft_ok built
  rfl

/-- The list of signed headers names what is signed. -/
theorem signedHeaders_ofDraft {draft : Draft} {hash : PayloadHash} {canonical : Canonical}
    (built : ofDraft draft hash = .ok canonical) :
    canonical.signedHeaders = namesText (draft.headers.namesExcept unsignedHeaders) := by
  rw [signedHeaders, names_ofDraft built]

theorem pathText_eq (decoded : String) :
    pathText decoded = Percent.encodeText Percent.isUnreservedOrSlash (rooted decoded) := by
  unfold pathText rooted
  by_cases empty : decoded = ""
  · subst empty
    rfl
  · have full : Percent.encodeText Percent.isUnreservedOrSlash decoded ≠ "" := by
      intro written
      have blank : Percent.encodeText Percent.isUnreservedOrSlash "" = "" := rfl
      exact empty (Percent.encodeText_path_injective (written.trans blank.symm))
    simp only [if_neg empty, if_neg full]

theorem rooted_of_pathText {left right : String} (same : pathText left = pathText right) :
    rooted left = rooted right := by
  rw [pathText_eq, pathText_eq] at same
  exact Percent.encodeText_path_injective same

theorem not_mem_pathText {octet : UInt8}
    (unwritten : Percent.isWritten Percent.isUnreservedOrSlash octet = false) (decoded : String) :
    octet ∉ Bytes.ofText (pathText decoded) := by
  rw [pathText_eq, Percent.ofText_encodeText_path]
  exact Percent.not_mem_encode unwritten _

/-- Methods are tokens, path and query are escaped, and values are readable: only the hash of the
payload is free in what it holds. -/
theorem ofDraft_plain {draft : Draft} {hash : PayloadHash} {canonical : Canonical}
    (built : ofDraft draft hash = .ok canonical) : canonical.Plain := by
  obtain ⟨decoded, headers, _, read, rfl⟩ := ofDraft_ok built
  refine ⟨?method, ?path, ?query, ?values⟩
  case method => exact Method.not_mem_text rfl draft.method
  case path => exact not_mem_pathText rfl decoded
  case query => exact Bytes.not_mem_of_class (fun _ => isQueryByte_of_mem_queryText) rfl
  case values =>
    intro header member
    obtain ⟨name, _, found⟩ := Success.mem_of_mapM read member
    obtain ⟨value, joined, rfl⟩ := Success.map_ok.mp found
    exact Draft.not_mem_joined rfl joined

/-- One text stands for one request, whatever its path, its query and its headers hold. -/
theorem agree_of_same_text {left right : Draft} {leftHash rightHash : PayloadHash}
    {leftCanonical rightCanonical : Canonical} (leftBuilt : ofDraft left leftHash = .ok leftCanonical)
    (rightBuilt : ofDraft right rightHash = .ok rightCanonical)
    (same : leftCanonical.text = rightCanonical.text) : Agree left right leftHash rightHash := by
  have equal := text_injective (ofDraft_plain leftBuilt) (ofDraft_plain rightBuilt) same
  obtain ⟨leftPath, leftHeaders, leftDecoded, leftRead, rfl⟩ := ofDraft_ok leftBuilt
  obtain ⟨rightPath, rightHeaders, rightDecoded, rightRead, rfl⟩ := ofDraft_ok rightBuilt
  rw [mk.injEq] at equal
  obtain ⟨methods, paths, queries, headers, hashes⟩ := equal
  subst headers
  refine ⟨?methods, ?paths, ?queries, ?signed, hashes⟩
  case methods => exact Method.ext_text methods
  case paths => exact ⟨leftPath, rightPath, leftDecoded, rightDecoded, rooted_of_pathText paths⟩
  case queries => exact perm_of_sortedQuery (sortedQuery_of_queryText queries)
  case signed => exact ⟨leftHeaders, leftRead, rightRead⟩

-- One request in two spellings: an escaped letter, another order of pairs and of headers.
def spelled (path : String) (query : List (String × String)) (headers : Headers) : Draft where
  method := .get
  scheme := .https
  authority := ⟨"example.com", by decide⟩
  path := path
  query := query
  headers := headers

def spelledHost : HeaderName × HeaderValue :=
  (.host, ⟨Bytes.ofText "example.com", false, by decide⟩)

def spelledTag : HeaderName × HeaderValue :=
  (⟨"x-tag", by decide⟩, ⟨Bytes.ofText "a b", false, by decide⟩)

def plainSpelling : Draft := spelled "/A" [("a", "1"), ("b", " ")] ⟨[spelledHost, spelledTag]⟩

def escapedSpelling : Draft := spelled "/%41" [("b", " "), ("a", "1")] ⟨[spelledTag, spelledHost]⟩

def sharedSpelling : Canonical where
  method := "GET"
  path := "/A"
  query := "a=1&b=%20"
  headers := [(spelledHost.1, "example.com"), (spelledTag.1, "a b")]
  payloadHash := "UNSIGNED-PAYLOAD"

theorem agree_of_escaped_spelling :
    ofDraft plainSpelling .unsigned = .ok sharedSpelling ∧
      ofDraft escapedSpelling .unsigned = .ok sharedSpelling ∧
      Agree plainSpelling escapedSpelling .unsigned .unsigned := by
  have plain : ofDraft plainSpelling .unsigned = .ok sharedSpelling := by cbv
  have escaped : ofDraft escapedSpelling .unsigned = .ok sharedSpelling := by cbv
  exact ⟨plain, escaped, agree_of_same_text plain escaped rfl⟩

end SigV4.Canonical
