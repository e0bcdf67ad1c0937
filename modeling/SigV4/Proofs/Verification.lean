import Mathlib
import SigV4.Proofs.SignedRequest
import SigV4.Proofs.Stamp
import SigV4.Proofs.WrittenDraft
/-!
Verification of a request that was signed in a header. A receiver knows the request, its body and
the secret with region and service; time and hash of the payload it takes from the headers. What
was changed after signing (pairs in another order and spelling, one more header) is invisible to
the canonical text, so the receiver comes to the signature that stands in the request.
-/
namespace SigV4

structure Verification where
  signature : String
  scope : String
  signedHeaders : String

namespace Verification

def dateOf (datetime : String) : String :=
  Bytes.asciiText (Form.cut 'T'.toUInt8 (Bytes.ofText datetime)).1

def ofRequest (request : Request) (body : Bytes) (secret region service : String) :
    Option Verification := do
  let draft ← (Draft.ofRequest request).toOption
  let canonical ← (Canonical.ofDraft draft (.digest (← draft.payloadText? body))).toOption
  let datetime ← (← draft.headers.get? .amzDate).readable?
  let parts := [dateOf datetime, region, service, Scope.terminator]
  let scope := String.intercalate "/" parts
  let text := Signature.lines Signature.requestAlgorithm datetime scope [canonical.digest]
  return ⟨Signature.hex (Signature.derive secret parts) text, scope, canonical.signedHeaders⟩

/-- What a receiver comes to who has found the canonical text and the time. -/
def recompute (canonical : Canonical) (datetime secret region service : String) : Verification :=
  let parts := [dateOf datetime, region, service, Scope.terminator]
  let scope := String.intercalate "/" parts
  let text := Signature.lines Signature.requestAlgorithm datetime scope [canonical.digest]
  ⟨Signature.hex (Signature.derive secret parts) text, scope, canonical.signedHeaders⟩

def authorization (accessKeyId : String) (found : Verification) : String :=
  Signature.requestAlgorithm ++ " Credential=" ++ (accessKeyId ++ "/" ++ found.scope)
    ++ ", SignedHeaders=" ++ found.signedHeaders ++ ", Signature=" ++ found.signature

end Verification

theorem Verification.dateOf_datetimeText (instant : Instant) :
    dateOf instant.datetimeText = instant.dateText := by
  apply Bytes.ofText_injective
  rw [dateOf, Instant.cut_datetimeText]
  exact Bytes.ofText_asciiText fun _ member =>
    Bytes.of_class (Instant.isDateByte_of_mem_dateText member) (by decide +kernel)

namespace Canonical

theorem ofDraft_sortedPairs (draft : Draft) (hash : PayloadHash) :
    ofDraft { draft with query := sortedPairs draft.query } hash = ofDraft draft hash := by
  have alike : Draft.Alike { draft with query := sortedPairs draft.query } draft :=
    ⟨rfl, rfl, sortedPairs_perm draft.query, fun _ _ => rfl⟩
  exact ofDraft_congr alike hash

/-- Neither the order of pairs nor a header that is not signed changes what is signed. -/
theorem ofDraft_insert {name : HeaderName} (hidden : name.text ∈ unsignedHeaders) (draft : Draft)
    (value : HeaderValue) (hash : PayloadHash) :
    ofDraft
        { draft with
          query := sortedPairs draft.query
          headers := draft.headers.insert name value }
        (.digest hash.text) = ofDraft draft hash := by
  have alike : Draft.Alike
      { draft with
        query := sortedPairs draft.query
        headers := draft.headers.insert name value } draft :=
    ⟨rfl, rfl, sortedPairs_perm draft.query, draft.headers.insert_alike hidden value⟩
  exact ofDraft_congr alike hash

end Canonical

namespace Signer

theorem signature_eq (credential : Credential) (scope : Scope) (canonical : Canonical) :
    signature credential scope canonical =
      Signature.hex
        (Signature.derive credential.secretAccessKey
          [scope.date, scope.region, scope.service, Scope.terminator])
        (Signature.lines Signature.requestAlgorithm scope.datetime
          (String.intercalate "/" [scope.date, scope.region, scope.service, Scope.terminator])
          [canonical.digest]) :=
  rfl

/-- The time of a scope is all that a receiver lacks. -/
theorem recompute_datetime (credential : Credential) (scope : Scope) (canonical : Canonical) :
    Verification.recompute canonical scope.datetime credential.secretAccessKey scope.region
        scope.service =
      ⟨signature credential scope canonical, scope.text, canonical.signedHeaders⟩ := by
  have day : Verification.dateOf scope.datetime = scope.date :=
    Verification.dateOf_datetimeText scope.time
  rw [Verification.recompute, signature_eq, day]
  rfl

/-- Whatever a draft was signed as, the request that is written from it verifies as that. -/
theorem verification_of_placed {credential : Credential} {scope : Scope} {source draft : Draft}
    {hash : PayloadHash} {canonical : Canonical} {received : Bytes} {signed : Request}
    (valid : PathAndQuery.isPath source.path = true) (spelled : source.path ≠ "")
    (full : ("", "") ∉ source.query) (ready : Prepared source draft hash scope received)
    (built : Canonical.ofDraft draft hash = .ok canonical)
    (placed : place draft credential .header scope canonical = .ok signed) :
    ∃ value : HeaderValue, signed.headers.values .authorization = [value] ∧
      value.octets = Bytes.ofText (authorization credential scope canonical) ∧
      Verification.ofRequest signed received credential.secretAccessKey scope.region
          scope.service =
        some ⟨signature credential scope canonical, scope.text, canonical.signedHeaders⟩ := by
  obtain ⟨value, made, finished⟩ := place_header_iff.mp placed
  have octets := HeaderValue.checked_ok made
  obtain ⟨dateValue, present, dateOctets⟩ := ready.date
  have read := Draft.ofRequest_finish (ready.path ▸ valid) (ready.path ▸ spelled)
    (ready.query ▸ full) rfl finished
  have hidden : HeaderName.authorization.text ∈ Canonical.unsignedHeaders := by decide
  have rebuilt := (Canonical.ofDraft_insert hidden draft value hash).trans built
  have notHash : HeaderName.authorization ≠ .amzContentSha256 := by decide
  have notDate : HeaderName.authorization ≠ .amzDate := by decide
  refine ⟨value, ?present, octets, ?verified⟩
  case present =>
    obtain ⟨target, _, rfl⟩ := Draft.finish_ok finished
    simp
  case verified =>
    have payload : Draft.payloadText?
        { draft with
          query := Canonical.sortedPairs draft.query
          headers := draft.headers.insert .authorization value } received = some hash.text := by
      rw [← ready.payload]
      simp only [Draft.payloadText?, Headers.values_insert, if_neg notHash]
    have date : (draft.headers.insert .authorization value).get? .amzDate = some dateValue := by
      rw [Headers.get?, Headers.values_insert, if_neg notDate, present, List.head?_cons]
    have datetime := HeaderValue.readable?_of_octets dateOctets
      (Instant.readable_datetimeText scope.time)
    rw [Verification.ofRequest, read]
    simp only [Except.toOption, bind, Option.bind, payload, rebuilt, date, datetime]
    exact congrArg some (recompute_datetime credential scope canonical)

/-- A request that was signed in a header verifies from what is sent: the signature that a receiver
computes is the one the signer gave out and the one in the request. -/
theorem header_signature_verifies {signer : Signer} {request : Request} {body : Option Bytes}
    {credential : Credential} {clock : Clock} {output : SigningOutput} {received : Bytes}
    (full : ("", "") ∉ request.uri.pathAndQuery.pairs)
    (delivered : ∀ octets ∈ body, octets = received)
    (done : (signer.sign request body credential .header clock).result = .ok output) :
    ∃ (found : Verification) (value : HeaderValue),
      Verification.ofRequest (signer.sign request body credential .header clock).request received
        credential.secretAccessKey signer.region signer.service = some found ∧
      found.signature = output.signature ∧
      (signer.sign request body credential .header clock).request.headers.values .authorization =
        [value] ∧
      value.octets = Bytes.ofText (found.authorization credential.accessKeyId) := by
  obtain ⟨draft, hash, canonical, prepared, built, placed, rfl⟩ := signAt_ok (sign_ok done)
  obtain ⟨source, taken, ready⟩ := prepare_header delivered prepared
  obtain ⟨query, valid, spelled⟩ := Draft.ofRequest_ok taken
  obtain ⟨value, present, octets, verified⟩ :=
    verification_of_placed valid spelled (query ▸ full) ready built placed
  exact ⟨_, value, verified, rfl, present, octets⟩

-- A listing of two pairs, the second of which loses its equals sign when it is sent.
def listing (query : String) (valid : PathAndQuery.isQuery query = true) (headers : Headers) :
    Request where
  method := .get
  uri :=
    { scheme := some .https
      authority := some ⟨"bucket.test", by decide⟩
      pathAndQuery := ⟨"/", some query, by decide, by simpa using valid⟩ }
  headers := headers

def listingDraft : Draft where
  method := .get
  scheme := .https
  authority := ⟨"bucket.test", by decide⟩
  path := "/"
  query := [("b", "2"), ("a", "")]
  headers := ⟨[(.host, ⟨Bytes.ofText "bucket.test", false, by decide⟩),
    (.amzDate, ⟨Bytes.ofText "19700101T000000Z", false, by decide⟩)]⟩

def listingCanonical (digest : String) : Canonical where
  method := "GET"
  path := "/"
  query := "a=&b=2"
  headers := [(.host, "bucket.test"), (.amzDate, "19700101T000000Z")]
  payloadHash := digest

def lister : Signer := ⟨"s3", "us-east-1", .full, false⟩

def listerKeys : Credential := ⟨"AKID", "secret", none⟩

def listed : Signing :=
  lister.sign (listing "b=2&a" rfl .empty) (some []) listerKeys .header ⟨Instant.epoch, []⟩

-- The digest of the body is kept as a name: nothing here depends on what it is.
theorem prepare_listing :
    lister.prepare (listing "b=2&a" rfl .empty) (some []) listerKeys .header
      (lister.scope Instant.epoch) = .ok (listingDraft, .digest (Sha256.hexHash [])) := by
  generalize spelled : Sha256.hexHash = hash
  simp only [prepare, PayloadStrategy.resolve, lister, PayloadStrategy.fullHash, spelled]
  cbv

theorem listing_signed : ∃ output, listed.result = .ok output := by
  have built : Canonical.ofDraft listingDraft (.digest (Sha256.hexHash [])) =
      .ok (listingCanonical (Sha256.hexHash [])) := by
    generalize Sha256.hexHash [] = digest
    cbv
  have known : Readable (credentialText listerKeys (lister.scope Instant.epoch)) :=
    readable_of_all (by cbv)
  have names : Readable (listingCanonical (Sha256.hexHash [])).signedHeaders := by
    generalize Sha256.hexHash [] = digest
    have spelled : (listingCanonical digest).signedHeaders = "host;x-amz-date" := by cbv
    exact spelled ▸ readable_of_all rfl
  have finished : ∀ headers, Draft.finish
      { listingDraft with
        query := Canonical.sortedQuery listingDraft.query
        headers := headers } = .ok (listing "a&b=2" rfl headers) := by
    intro headers
    cbv
  obtain ⟨signed, placed⟩ := place_of_readable (readable_authorization known names) finished
  exact sign_of_placed rfl prepare_listing built placed

theorem listing_verifies :
    ∃ output, listed.result = .ok output ∧
      ∃ (found : Verification) (value : HeaderValue),
        Verification.ofRequest listed.request [] listerKeys.secretAccessKey lister.region
          lister.service = some found ∧
        found.signature = output.signature ∧
        listed.request.headers.values .authorization = [value] ∧
        value.octets = Bytes.ofText (found.authorization listerKeys.accessKeyId) := by
  obtain ⟨output, done⟩ := listing_signed
  have full : ("", "") ∉ (listing "b=2&a" rfl .empty).uri.pathAndQuery.pairs := by
    decide +kernel
  have delivered : ∀ octets ∈ (some [] : Option Bytes), octets = [] := by
    intro octets same
    exact (Option.some.inj same).symm
  exact ⟨output, done, header_signature_verifies full delivered done⟩

end Signer

end SigV4
