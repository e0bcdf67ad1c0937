import SigV4.Proofs.FilledHeaders
import SigV4.Proofs.PresignedRequest
/-!
What a signature ignores. Two requests that spell the same path and pairs, whose signed headers
differ in spaces and in the order of their names, and whose other headers are any, are prepared to
alike drafts: one canonical request stands for both, and one signature.
-/
namespace SigV4

structure Request.Respelled (left right : Request) : Prop where
  method : left.method = right.method
  scheme : left.uri.scheme = right.uri.scheme
  authority : left.uri.authority = right.uri.authority
  path : Percent.decode (Bytes.ofText left.uri.pathAndQuery.requestPath) =
    Percent.decode (Bytes.ofText right.uri.pathAndQuery.requestPath)
  query : left.uri.pathAndQuery.pairs.Perm right.uri.pathAndQuery.pairs
  headers : ∀ name : HeaderName, name.text ∉ Canonical.unsignedHeaders →
    List.Forall₂ HeaderValue.Respaced (left.headers.octets name) (right.headers.octets name)

theorem HeaderValue.map_normal {left right : List Bytes}
    (respaced : List.Forall₂ Respaced left right) : left.map normal = right.map normal := by
  induction respaced with
  | nil => rfl
  | cons first _ ih => rw [List.map_cons, List.map_cons, normal_of_respaced first, ih]

namespace Headers

theorem octets_normalized (headers : Headers) (name : HeaderName) :
    (headers.mapValues (·.normalize)).octets name =
      (headers.octets name).map HeaderValue.normal := by
  rw [octets, octets, values_mapValues, List.map_map, List.map_map]
  rfl

variable {excluded : List String} {left right : Headers} (alike : Alike excluded left right)
include alike

theorem Alike.insert (name : HeaderName) (value : HeaderValue) :
    Alike excluded (left.insert name value) (right.insert name value) := by
  intro other signed
  have same := alike other signed
  rw [octets, octets] at same ⊢
  rw [values_insert, values_insert]
  split
  · rfl
  · exact same

theorem Alike.set? (name : HeaderName) (value : Option HeaderValue) :
    Alike excluded (left.set? name value) (right.set? name value) := by
  cases value with
  | none => exact alike
  | some value => exact alike.insert name value

theorem Alike.withHost (signed : HeaderName.host.text ∉ excluded) (host : HeaderValue) :
    Alike excluded (left.withHost host) (right.withHost host) := by
  have present : left.contains .host = right.contains .host := by
    rw [Bool.eq_iff_iff, contains_iff, contains_iff, Ne, Ne, ← octets_eq_nil, ← octets_eq_nil,
      alike .host signed]
  unfold Headers.withHost
  rw [present]
  split
  · exact alike
  · exact alike.insert .host host

theorem Alike.fill (signed : HeaderName.host.text ∉ excluded) (fill : Fill) :
    Alike excluded (left.fill fill) (right.fill fill) :=
  (((alike.withHost signed fill.host).insert .amzDate fill.date).set? .amzSecurityToken
    fill.token).set? .amzContentSha256 fill.checksum

end Headers

namespace Signer

variable {left right : Draft}

theorem presignedHash_congr
    (same : left.headers.octets .amzContentSha256 = right.headers.octets .amzContentSha256) :
    presignedHash left = presignedHash right := by
  rw [presignedHash, presignedHash, Draft.headerText?_congr same]

theorem parameters_congr (alike : left.headers.Alike Canonical.unsignedHeaders right.headers)
    (credential : Credential) (expiry : Nat) (scope : Scope) :
    parameters left credential expiry scope = parameters right credential expiry scope := by
  rw [parameters, parameters, Headers.namesExcept_congr alike]

end Signer

namespace Draft

structure Respelled (left right : Draft) : Prop where
  alike : left.normalizeHeaders.Alike right.normalizeHeaders
  scheme : left.scheme = right.scheme
  authority : left.authority = right.authority

theorem ofRequest_respelled {left right : Request} {leftDraft rightDraft : Draft}
    (same : left.Respelled right) (leftTaken : ofRequest left = .ok leftDraft)
    (rightTaken : ofRequest right = .ok rightDraft) : leftDraft.Respelled rightDraft := by
  obtain ⟨authority, known, rfl⟩ := ofRequest_iff.mp leftTaken
  obtain ⟨_, again, rfl⟩ := ofRequest_iff.mp rightTaken
  obtain rfl := Option.some.inj (known.symm.trans (same.authority.trans again))
  refine ⟨⟨same.method, ?path, same.query, ?headers⟩, ?scheme, rfl⟩
  case path =>
    simp only [normalizeHeaders, decodedPath]
    rw [same.path]
  case headers =>
    intro name signed
    simp only [normalizeHeaders]
    rw [Headers.octets_normalized, Headers.octets_normalized,
      HeaderValue.map_normal (same.headers name signed)]
  case scheme => simp only [same.scheme]

variable {left right : Draft} (same : left.Respelled right)
include same

theorem filled_alike (fill : Fill) : (left.filled fill).Alike (right.filled fill) :=
  ⟨same.alike.method, same.alike.path, same.alike.query,
    same.alike.headers.fill (by decide) fill⟩

theorem hosted_alike : left.hosted.Alike right.hosted := by
  refine ⟨same.alike.method, same.alike.path, same.alike.query, ?_⟩
  rw [hosted, hosted, same.authority]
  exact same.alike.headers.withHost (by decide) right.authority.hostValue

end Draft

namespace Signer

variable {signer : Signer} {left right : Request} {body : Option Bytes} {credential : Credential}
  {placement : Placement} {scope : Scope} {leftDraft rightDraft : Draft}
  {leftHash rightHash : PayloadHash}

theorem prepare_header_respelled (same : left.Respelled right)
    (leftPrepared : signer.prepare left body credential .header scope = .ok (leftDraft, leftHash))
    (rightPrepared :
      signer.prepare right body credential .header scope = .ok (rightDraft, rightHash)) :
    leftDraft.Alike rightDraft ∧ leftHash = rightHash := by
  obtain ⟨leftSource, token, checksum, leftTaken, found, leftResolved, announced, rfl⟩ :=
    prepare_header_ok leftPrepared
  obtain ⟨rightSource, _, _, rightTaken, again, rightResolved, repeated, rfl⟩ :=
    prepare_header_ok rightPrepared
  have respelled := Draft.ofRequest_respelled same leftTaken rightTaken
  have resolved := PayloadStrategy.resolve_congr
    (respelled.alike.headers .amzContentSha256 (by decide)) signer.strategy respelled.scheme body
  obtain rfl := Except.ok.inj (found.symm.trans again)
  obtain rfl := Except.ok.inj (leftResolved.symm.trans (resolved.trans rightResolved))
  obtain rfl := Except.ok.inj (announced.symm.trans repeated)
  rw [respelled.authority]
  exact ⟨Draft.filled_alike respelled _, rfl⟩

theorem prepare_query_respelled {expiry : Nat} (same : left.Respelled right)
    (leftPrepared :
      signer.prepare left body credential (.query expiry) scope = .ok (leftDraft, leftHash))
    (rightPrepared :
      signer.prepare right body credential (.query expiry) scope = .ok (rightDraft, rightHash)) :
    leftDraft.Alike rightDraft ∧ leftHash = rightHash := by
  obtain ⟨leftSource, leftTaken, leftHashed, rfl⟩ := prepare_query_ok leftPrepared
  obtain ⟨rightSource, rightTaken, rightHashed, rfl⟩ := prepare_query_ok rightPrepared
  have alike := Draft.hosted_alike (Draft.ofRequest_respelled same leftTaken rightTaken)
  have hashes := presignedHash_congr (alike.headers .amzContentSha256 (by decide))
  obtain rfl := Except.ok.inj (leftHashed.symm.trans (hashes.trans rightHashed))
  rw [parameters_congr alike.headers]
  exact ⟨⟨alike.method, alike.path, alike.query.append_right _, alike.headers⟩, rfl⟩

/-- Either placement prepares respelled requests alike, and finds one hash for both. -/
theorem prepare_respelled (same : left.Respelled right)
    (leftPrepared : signer.prepare left body credential placement scope = .ok (leftDraft, leftHash))
    (rightPrepared :
      signer.prepare right body credential placement scope = .ok (rightDraft, rightHash)) :
    leftDraft.Alike rightDraft ∧ leftHash = rightHash := by
  cases placement with
  | header => exact prepare_header_respelled same leftPrepared rightPrepared
  | query expiry => exact prepare_query_respelled same leftPrepared rightPrepared

/-- A signature ignores how a request is spelled: both spellings give the same signature, the same
list of signed headers and the same hash of the payload. -/
theorem output_ignores_spelling {clock : Clock} {leftOutput rightOutput : SigningOutput}
    (same : left.Respelled right)
    (leftDone : (signer.sign left body credential placement clock).result = .ok leftOutput)
    (rightDone : (signer.sign right body credential placement clock).result = .ok rightOutput) :
    leftOutput = rightOutput := by
  obtain ⟨leftDraft, leftHash, leftCanonical, leftPrepared, leftBuilt, _, rfl⟩ :=
    signAt_ok (sign_ok leftDone)
  obtain ⟨rightDraft, rightHash, rightCanonical, rightPrepared, rightBuilt, _, rfl⟩ :=
    signAt_ok (sign_ok rightDone)
  obtain ⟨alike, rfl⟩ := prepare_respelled same leftPrepared rightPrepared
  rw [Canonical.ofDraft_congr alike, rightBuilt] at leftBuilt
  cases leftBuilt
  rfl

-- One fetch in two spellings, which differ in all that is ignored.
def fetch (path query : String) (pathOk : PathAndQuery.isPath path = true)
    (queryOk : PathAndQuery.isQuery query = true) (headers : Headers) : Request :=
  let request := listing query queryOk headers
  let target := { request.uri.pathAndQuery with path := path, path_ok := pathOk }
  { request with uri := { request.uri with pathAndQuery := target } }

def fetchHost : HeaderName × HeaderValue := (.host, listingDraft.authority.hostValue)

def fetchTag (text : String) (valid : (Bytes.ofText text).all isValueByte = true) :
    HeaderName × HeaderValue :=
  (Canonical.spelledTag.1, ⟨Bytes.ofText text, false, valid⟩)

def userAgent : HeaderName × HeaderValue :=
  (⟨"user-agent", by decide⟩, ⟨Bytes.ofText "one", false, by decide⟩)

def expectation : HeaderName × HeaderValue :=
  (⟨"expect", by decide⟩, ⟨Bytes.ofText "100-continue", false, by decide⟩)

def plainFetch : Request :=
  fetch "/A" "b=2&a=+" rfl rfl ⟨[fetchTag "a b" rfl, fetchHost, userAgent]⟩

def spacedFetch : Request :=
  fetch "/%41" "%61=%20&b=2" rfl rfl ⟨[fetchHost, expectation, fetchTag " a  b " rfl]⟩

theorem respaced_tag : HeaderValue.Respaced (Bytes.ofText "a b") (Bytes.ofText " a  b ") :=
  .symm (.trans (.leading (Bytes.ofText "a  b "))
    (.trans (.trailing (Bytes.ofText "a  b")) (.repeated (Bytes.ofText "a") (Bytes.ofText "b"))))

theorem fetch_respelled : plainFetch.Respelled spacedFetch := by
  refine ⟨rfl, rfl, rfl, ?path, ?query, ?headers⟩
  case path => decide +kernel
  case query => decide +kernel
  case headers =>
    intro name signed
    by_cases tag : name = (fetchTag "a b" rfl).1
    · subst tag
      exact .cons respaced_tag .nil
    by_cases host : name = .host
    · subst host
      exact .cons (.refl _) .nil
    have agent : userAgent.1 ≠ name := fun same => signed (same ▸ by decide)
    have expected : expectation.1 ≠ name := fun same => signed (same ▸ by decide)
    have plain : plainFetch.headers.octets name = [] := by
      simp [plainFetch, fetch, listing, fetchHost, Headers.octets, Headers.values, Ne.symm tag,
        Ne.symm host, agent]
    have spaced : spacedFetch.headers.octets name = [] := by
      have same : (fetchTag " a  b " rfl).1 = (fetchTag "a b" rfl).1 := rfl
      simp [spacedFetch, fetch, listing, fetchHost, Headers.octets, Headers.values, same, Ne.symm tag,
        Ne.symm host, expected]
    rw [plain, spaced]
    exact .nil

def fetchDraft (path : String) (query : List (String × String)) (headers : Headers) : Draft :=
  let draft := { listingDraft with path := path, query := query, headers := headers }
  { draft with query := query ++ parameters draft listerKeys 300 (lister.scope Instant.epoch) }

def plainDraft : Draft :=
  fetchDraft "/A" [("b", "2"), ("a", " ")] ⟨[fetchTag "a b" rfl, fetchHost, userAgent]⟩

def spacedDraft : Draft :=
  fetchDraft "/%41" [("a", " "), ("b", "2")] ⟨[fetchHost, expectation, fetchTag "a b" rfl]⟩

def fetchCanonical : Canonical where
  method := "GET"
  path := "/A"
  query := Canonical.queryText plainDraft.query
  headers := [(.host, "bucket.test"), ((fetchTag "a b" rfl).1, "a b")]
  payloadHash := "UNSIGNED-PAYLOAD"

def fetched (request : Request) : Signing :=
  lister.sign request none listerKeys guestPlacement ⟨Instant.epoch, []⟩

theorem plain_signed : ∃ output, (fetched plainFetch).result = .ok output := by
  have prepared : lister.prepare plainFetch none listerKeys guestPlacement
      (lister.scope Instant.epoch) = .ok (plainDraft, .unsigned) := by
    cbv
  have built : Canonical.ofDraft plainDraft .unsigned = .ok fetchCanonical := by
    cbv
  have room : plainDraft.path.utf8ByteSize +
      Draft.querySize { plainDraft with query := Canonical.sortedQuery plainDraft.query } +
        2 * (Canonical.sortedQuery plainDraft.query).length + 81 ≤ PathAndQuery.maxLength := by
    cbv
  exact presigned_of_short rfl prepared built rfl rfl room

theorem spaced_signed : ∃ output, (fetched spacedFetch).result = .ok output := by
  have prepared : lister.prepare spacedFetch none listerKeys guestPlacement
      (lister.scope Instant.epoch) = .ok (spacedDraft, .unsigned) := by
    cbv
  have built : Canonical.ofDraft spacedDraft .unsigned = .ok fetchCanonical := by
    cbv
  have room : spacedDraft.path.utf8ByteSize +
      Draft.querySize { spacedDraft with query := Canonical.sortedQuery spacedDraft.query } +
        2 * (Canonical.sortedQuery spacedDraft.query).length + 81 ≤ PathAndQuery.maxLength := by
    cbv
  exact presigned_of_short rfl prepared built rfl rfl room

theorem fetch_ignores_spelling :
    plainFetch ≠ spacedFetch ∧
      ∃ output, (fetched plainFetch).result = .ok output ∧
        (fetched spacedFetch).result = .ok output := by
  obtain ⟨plainOutput, plainDone⟩ := plain_signed
  obtain ⟨spacedOutput, spacedDone⟩ := spaced_signed
  have same : plainOutput = spacedOutput :=
    output_ignores_spelling fetch_respelled plainDone spacedDone
  exact ⟨by decide +kernel, plainOutput, plainDone, same ▸ spacedDone⟩

end Signer

end SigV4
