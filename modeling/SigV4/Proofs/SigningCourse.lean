import Mathlib
import SigV4.Proofs.PresignedRequest
import SigV4.Proofs.RepeatedSigning
/-!
The course of a signing that succeeds. A draft is taken from the request and prepared, its canonical
request is built, logged and signed, and the signature is put in its place. Whatever the placement
is, the request that is left has the target of the draft, and every header of it that is signed.
-/
namespace SigV4

structure Signing.Covers (signing : Signing) (credential : Credential) (output : SigningOutput)
    (canonical : Canonical) : Prop where
  log : signing.log =
    [.debug ("calculated scope: " ++ output.scope.text),
     .debug ("calculated canonical request: " ++ canonical.text),
     .debug ("calculated string to sign: " ++ Signer.stringToSign output.scope canonical)]
  signature : output.signature = Signer.signature credential output.scope canonical

namespace Draft

structure SameTarget (left right : Draft) : Prop where
  method : left.method = right.method
  scheme : left.scheme = right.scheme
  authority : left.authority = right.authority
  path : left.path = right.path

theorem finish_target {draft : Draft} {pairs : List (String × String)} {request : Request}
    (finished : draft.finish = .ok request) (valid : PathAndQuery.isPath draft.path = true)
    (written : draft.query = pairs.map Canonical.encodePair) :
    request.method = draft.method ∧ request.uri.scheme = some draft.scheme ∧
      request.uri.authority = some draft.authority ∧
      request.uri.pathAndQuery.path = draft.path ∧ request.headers = draft.headers := by
  obtain ⟨target, parsed, rfl⟩ := finish_ok finished
  obtain ⟨path, _⟩ := ofTail_target valid written (PathAndQuery.ofTail_of_parse parsed)
  exact ⟨rfl, rfl, rfl, path, rfl⟩

end Draft

namespace Signer

variable {signer : Signer} {request signed : Request} {body : Option Bytes}
  {credential : Credential} {placement : Placement} {scope : Scope} {draft : Draft}
  {hash : PayloadHash} {canonical : Canonical} {clock : Clock} {output : SigningOutput}

theorem log_of_built (allowed : signer.check credential placement = .ok ())
    (prepared : signer.prepare request body credential placement (signer.scope clock.now) =
      .ok (draft, hash))
    (built : Canonical.ofDraft draft hash = .ok canonical) :
    (signer.sign request body credential placement clock).log =
      [.debug ("calculated scope: " ++ (signer.scope clock.now).text),
       .debug ("calculated canonical request: " ++ canonical.text),
       .debug ("calculated string to sign: " ++ stringToSign (signer.scope clock.now) canonical)] := by
  rw [log_sign allowed, signAt_built prepared built]

/-- All that a signing has gone through when it succeeds. -/
theorem course_of_done
    (done : (signer.sign request body credential placement clock).result = .ok output) :
    ∃ draft hash canonical,
      signer.prepare request body credential placement output.scope = .ok (draft, hash) ∧
      Canonical.ofDraft draft hash = .ok canonical ∧
      place draft credential placement output.scope canonical =
        .ok (signer.sign request body credential placement clock).request ∧
      output.signedHeaders = canonical.signedHeaders ∧ output.payloadHash = hash ∧
      (signer.sign request body credential placement clock).Covers credential output canonical := by
  obtain ⟨draft, hash, canonical, prepared, built, placed, rfl⟩ := signAt_ok (sign_ok done)
  exact ⟨draft, hash, canonical, prepared, built, placed, rfl, rfl,
    log_of_built (allowed_of_done done) prepared built, rfl⟩

theorem prepare_target
    (prepared : signer.prepare request body credential placement scope = .ok (draft, hash)) :
    ∃ source, Draft.ofRequest request = .ok source ∧ draft.SameTarget source := by
  cases placement with
  | header =>
      obtain ⟨source, token, checksum, taken, _, _, _, rfl⟩ := prepare_header_ok prepared
      exact ⟨source, taken, rfl, rfl, rfl, rfl⟩
  | query expiry =>
      obtain ⟨source, taken, _, rfl⟩ := prepare_query_ok prepared
      exact ⟨source, taken, rfl, rfl, rfl, rfl⟩

/-- A host stands in every draft that is signed. -/
theorem prepare_host
    (prepared : signer.prepare request body credential placement scope = .ok (draft, hash)) :
    draft.headers.values .host ≠ [] := by
  cases placement with
  | header =>
      obtain ⟨source, token, checksum, _, _, _, _, rfl⟩ := prepare_header_ok prepared
      rw [Draft.values_filled, Fill.values_host]
      split
      · exact List.cons_ne_nil _ _
      · assumption
  | query expiry =>
      obtain ⟨source, _, _, rfl⟩ := prepare_query_ok prepared
      have hosted : source.hosted.headers.values .host ≠ [] := by
        rw [Draft.values_hosted]
        split
        · exact List.cons_ne_nil _ _
        · next present => simpa using present
      exact hosted

/-- Pairs are written in their order; an authorization is the one header that is not signed. -/
theorem place_written
    (placed : place draft credential placement scope canonical = .ok signed) :
    ∃ (pairs : List (String × String)) (headers : Headers),
      Draft.finish { draft with query := pairs.map Canonical.encodePair, headers := headers } =
        .ok signed ∧ headers.Alike Canonical.unsignedHeaders draft.headers := by
  cases placement with
  | header =>
      obtain ⟨value, _, finished⟩ := place_header_iff.mp placed
      rw [← Canonical.map_sortedPairs] at finished
      exact ⟨_, _, finished, draft.headers.insert_alike (by decide) value⟩
  | query expiry => exact ⟨_, _, place_query placed, fun _ _ => rfl⟩

namespace Findings

variable {found : Findings} {authorized : HeaderValue}
  (of : found.Of signer request body credential)
include of

theorem authority_known : found.source.authority ∈ request.uri.authority := by
  obtain ⟨authority, known, taken⟩ := Draft.ofRequest_iff.mp of.source
  rw [taken]
  exact known

theorem headers_known : found.source.headers = request.headers := by
  obtain ⟨authority, _, taken⟩ := Draft.ofRequest_iff.mp of.source
  rw [taken]

/-- A request is sent with its authorization, and all else as it was filled in. -/
theorem values_sent (name : HeaderName) :
    (found.signed scope authorized).headers.values name =
      if name = .authorization then [authorized]
      else (found.fill scope).values name ((request.headers.values name).map (·.normalize)) := by
  by_cases same : name = .authorization
  · rw [if_pos same, signed, Headers.values_insert, if_pos same.symm]
  · rw [if_neg same, values_signed same, values_draft, headers_known of]

end Findings

/-- The course of a signing in a header, in terms of what it has found. -/
theorem found_of_done
    (done : (signer.sign request body credential .header clock).result = .ok output) :
    ∃ (found : Findings) (canonical : Canonical) (authorized : HeaderValue),
      found.Of signer request body credential ∧
      Canonical.ofDraft (found.draft output.scope) found.hash = .ok canonical ∧
      (signer.sign request body credential .header clock).request =
        found.signed output.scope authorized ∧
      authorized.sensitive = true ∧ output.payloadHash = found.hash ∧
      (signer.sign request body credential .header clock).Covers credential output canonical := by
  obtain ⟨found, canonical, authorized, of, built, made, left⟩ := sign_header_ok done
  obtain ⟨again, _⟩ := sign_found of built made
  obtain rfl := Except.ok.inj (done.symm.trans again)
  exact ⟨found, canonical, authorized, of, built, left, HeaderValue.sensitive_of_checked made, rfl,
    log_of_built of.allowed (prepare_found of _) built, rfl⟩

/-- What is found is signed, if the authorization can be sent. -/
theorem signed_of_found {found : Findings} (of : found.Of signer request body credential)
    (built : Canonical.ofDraft (found.draft (signer.scope clock.now)) found.hash = .ok canonical)
    (known : Sendable credential.accessKeyId ∧ Sendable signer.region ∧ Sendable signer.service) :
    ∃ output authorized,
      (signer.sign request body credential .header clock).result = .ok output ∧
      output.payloadHash = found.hash ∧
      (signer.sign request body credential .header clock).request =
        found.signed (signer.scope clock.now) authorized ∧
      (signer.sign request body credential .header clock).Covers credential output canonical := by
  have sendable := (sendable_authorization signer credential clock.now canonical).mpr known
  have made := HeaderValue.checked_sendable sendable true
  obtain ⟨done, left⟩ := sign_found of built made
  exact ⟨_, _, done, rfl, left, log_of_built of.allowed (prepare_found of _) built, rfl⟩

/-- Presigning writes no header but a host. -/
theorem hosted_of_done {expiry : Nat}
    (done : (signer.sign request body credential (.query expiry) clock).result = .ok output) :
    ∃ authority ∈ request.uri.authority, ∀ name,
      (signer.sign request body credential (.query expiry) clock).request.headers.values name =
        if name = .host ∧ request.headers.values name = [] then [authority.hostValue]
        else (request.headers.values name).map (·.normalize) := by
  obtain ⟨draft, hash, canonical, prepared, _, placed, _⟩ := course_of_done done
  generalize (signer.sign request body credential (.query expiry) clock).request = signed at *
  obtain ⟨source, taken, _, rfl⟩ := prepare_query_ok prepared
  obtain ⟨target, _, rfl⟩ := Draft.finish_ok (place_query placed)
  obtain ⟨authority, known, rfl⟩ := Draft.ofRequest_iff.mp taken
  exact ⟨authority, known, Draft.values_hosted _⟩

-- A parcel that was addressed by hand: it says neither scheme nor path, it brings an authorization
-- of its own, and it announces two hashes.
def parcelHeader (name : HeaderName) (text : String) (sensitive : Bool)
    (held : (Bytes.ofText text).all isValueByte = true) : HeaderName × HeaderValue :=
  (name, ⟨Bytes.ofText text, sensitive, held⟩)

def parcelTag : HeaderName := Canonical.spelledTag.1

def firstHash : HeaderName × HeaderValue := parcelHeader .amzContentSha256 "a" false rfl

def secondHash : HeaderName × HeaderValue := parcelHeader .amzContentSha256 "b" false rfl

def parcelClaim : HeaderName × HeaderValue := parcelHeader .authorization "none" false rfl

def parcelToken : HeaderName × HeaderValue := parcelHeader .amzSecurityToken "a/b+c=d&e" true rfl

def parcel : Request where
  method := .get
  uri := ⟨none, some listingDraft.authority, .blank⟩
  headers := ⟨[parcelHeader parcelTag " a  c" true rfl, firstHash, parcelClaim, secondHash]⟩

def parcelSource : Draft :=
  { listingDraft with scheme := .http, query := [], headers := parcel.headers }

def parcelFound : Findings where
  source := parcelSource
  token := some parcelToken.2
  hash := .digest "a"
  checksum := none
  uri :=
    { scheme := some .http
      authority := some listingDraft.authority
      pathAndQuery := { PathAndQuery.blank with path := "/", path_ok := PathAndQuery.isPath_root } }

theorem parcel_found : parcelFound.Of lister parcel none guestKeys := by
  refine ⟨rfl, rfl, rfl, ?hash, rfl, ?uri⟩
  case hash => cbv
  case uri => cbv

def parcelScope : Scope := lister.scope Instant.epoch

def parcelDraft : Draft :=
  { parcelSource with
    headers := ⟨[parcelHeader parcelTag "a c" true rfl, firstHash, parcelClaim, secondHash,
      (.host, listingDraft.authority.hostValue), (.amzDate, parcelScope.dateValue),
      parcelToken]⟩ }

def parcelCanonical : Canonical where
  method := "GET"
  path := "/"
  query := ""
  headers := [(.host, "bucket.test"), (.amzContentSha256, "a,b"), (.amzDate, "19700101T000000Z"),
    (.amzSecurityToken, "a/b+c=d&e"), (parcelTag, "a c")]
  payloadHash := "a"

theorem ofDraft_parcel :
    Canonical.ofDraft (parcelFound.draft parcelScope) parcelFound.hash = .ok parcelCanonical := by
  have filled : parcelFound.draft parcelScope = parcelDraft := by decide +kernel
  have names : parcelDraft.headers.namesExcept Canonical.unsignedHeaders =
      parcelCanonical.headers.map (·.1) :=
    Headers.namesExcept_eq (by decide +kernel) (by decide +kernel) (by decide +kernel)
  simp only [Canonical.ofDraft, filled, names]
  cbv

def posted : Signing := lister.sign parcel none guestKeys .header ⟨Instant.epoch, []⟩

/-- The parcel keeps both of its hashes, and the first of them stands for the payload. -/
theorem parcel_signed :
    ∃ output, posted.result = .ok output ∧ posted.Covers guestKeys output parcelCanonical ∧
      output.payloadHash = .digest "a" ∧
      posted.request.headers.values .amzContentSha256 = [firstHash.2, secondHash.2] := by
  have known : Sendable guestKeys.accessKeyId ∧ Sendable lister.region ∧ Sendable lister.service := by
    simp only [Sendable, ← List.all_eq_true]
    exact ⟨rfl, rfl, rfl⟩
  obtain ⟨output, authorized, done, payload, same, covered⟩ : ∃ output authorized,
      posted.result = .ok output ∧ output.payloadHash = parcelFound.hash ∧
      posted.request = parcelFound.signed parcelScope authorized ∧
      posted.Covers guestKeys output parcelCanonical :=
    signed_of_found parcel_found ofDraft_parcel known
  refine ⟨output, done, covered, payload, ?_⟩
  rw [same, Findings.values_sent parcel_found]
  cbv

-- An errand is a request for the root that has headers and nothing else; what it is signed as is put
-- together from what is found for each of them.
def errand (scheme : Scheme) (headers : Headers) : Request where
  method := .get
  uri :=
    { scheme := some scheme
      authority := some listingDraft.authority
      pathAndQuery := { PathAndQuery.blank with path := "/", path_ok := PathAndQuery.isPath_root } }
  headers := headers

def unsignedHeader : HeaderName × HeaderValue :=
  parcelHeader .amzContentSha256 "UNSIGNED-PAYLOAD" false rfl

def errandSource (scheme : Scheme) (headers : Headers) : Draft :=
  { listingDraft with scheme := scheme, query := [], headers := headers }

def errandFound (scheme : Scheme) (headers : Headers) (hash : PayloadHash)
    (token checksum : Option HeaderValue) : Findings where
  source := errandSource scheme headers
  token := token
  hash := hash
  checksum := checksum
  uri := (errand scheme headers).uri

theorem finish_errand (scheme : Scheme) (headers : Headers) :
    Draft.finish
        { errandSource scheme headers with
          query := Canonical.sortedQuery (errandSource scheme headers).query } =
      .ok (errand scheme headers) := by
  cbv

def errandCanonical (headers : List (HeaderName × String)) (hash : PayloadHash) : Canonical where
  method := "GET"
  path := "/"
  query := ""
  headers := headers
  payloadHash := hash.text

section Errand

variable {scheme : Scheme} {headers : Headers} {hash : PayloadHash}
  {token checksum : Option HeaderValue} {filled : Headers} {lines : List (HeaderName × String)}

theorem errand_found (allowed : signer.check credential .header = .ok ())
    (tokened : credential.tokenValue = .ok token)
    (hashed : signer.strategy.resolve (errandSource scheme headers).normalizeHeaders body = .ok hash)
    (announced : signer.checksumValue hash = .ok checksum) :
    (errandFound scheme headers hash token checksum).Of signer (errand scheme headers) body
      credential :=
  ⟨allowed, rfl, tokened, hashed, announced, finish_errand scheme headers⟩

theorem ofDraft_errand
    (names : headers.namesExcept Canonical.unsignedHeaders = lines.map (·.1))
    (joined : (lines.map (·.1)).mapM (fun name => Draft.joinedText (headers.values name)) =
      .ok (lines.map (·.2))) :
    Canonical.ofDraft (errandSource scheme headers) hash = .ok (errandCanonical lines hash) := by
  have values : (lines.map (·.1)).mapM (errandSource scheme headers).headerJoined =
      .ok (lines.map (·.2)) := joined
  have path : (errandSource scheme headers).decodedPath = .ok "/" := by cbv
  have zipped : (lines.map (·.1)).zip (lines.map (·.2)) = lines := by
    rw [List.zip_map', List.map_id'' fun _ => rfl]
  have source : (errandSource scheme headers).headers = headers := rfl
  simp only [Canonical.ofDraft, source, names, path, values, bind, Except.bind, zipped]
  cbv

/-- An errand is signed over the lines of its headers, once they are filled in. -/
theorem errand_signed
    (of : (errandFound scheme headers hash token checksum).Of signer (errand scheme headers) body
      credential)
    (fills : (errandFound scheme headers hash token checksum).draft (signer.scope clock.now) =
      errandSource scheme filled)
    (built : Canonical.ofDraft (errandSource scheme filled) hash = .ok canonical)
    (known : ∀ text ∈ [credential.accessKeyId, signer.region, signer.service],
      (Bytes.ofText text).all isValueByte = true) :
    ∃ output authorized,
      (signer.sign (errand scheme headers) body credential .header clock).result = .ok output ∧
      output.payloadHash = hash ∧
      (signer.sign (errand scheme headers) body credential .header clock).request =
        errand scheme (filled.insert .authorization authorized) ∧
      (signer.sign (errand scheme headers) body credential .header clock).Covers credential output
        canonical := by
  have sendable : ∀ text ∈ [credential.accessKeyId, signer.region, signer.service],
      Sendable text := fun text listed => List.all_eq_true.mp (known text listed)
  rw [← fills] at built
  obtain ⟨output, authorized, done, payload, left, covered⟩ := signed_of_found of built
    ⟨sendable _ (by simp), sendable _ (by simp), sendable _ (by simp)⟩
  rw [Findings.signed, fills] at left
  exact ⟨output, authorized, done, payload, left, covered⟩

end Errand

end Signer

end SigV4
