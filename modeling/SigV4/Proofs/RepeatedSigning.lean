import SigV4.Proofs.FilledHeaders
import SigV4.Proofs.Verification
/-!
Signing again. A request that was signed in a header holds what the first signing wrote: the query
escaped and sorted, a host, the date, the token, the announced hash and the authorization. The next
signing replaces the date, the token and the authorization, finds all else as it would write it, and
so ends as if there had been no signature before.
-/
namespace SigV4

structure Request.Same (left right : Request) : Prop where
  method : left.method = right.method
  uri : left.uri = right.uri
  values : ∀ name, left.headers.values name = right.headers.values name

theorem readable_namesText (names : List HeaderName) : Readable (Canonical.namesText names) := by
  intro octet member
  rw [Canonical.namesText, Bytes.ofText_intercalate] at member
  rcases Form.mem_of_mem_intercalate member with between | ⟨piece, present, inside⟩
  · exact List.mem_singleton.mp between ▸ rfl
  · rw [List.map_map] at present
    obtain ⟨name, _, rfl⟩ := List.mem_map.mp present
    have token := List.all_eq_true.mp name.valid.2 octet inside
    exact Bytes.of_class (Bool.and_eq_true_iff.mp token).1 (by decide +kernel)

namespace Draft

/-- Putting a draft together passes its headers on and does not read them. -/
theorem finish_headers {draft : Draft} {method : Method} {uri : Uri} {headers : Headers}
    (finished : draft.finish = .ok ⟨method, uri, headers⟩) (other : Headers) :
    Draft.finish { draft with headers := other } = .ok ⟨method, uri, other⟩ := by
  obtain ⟨target, parsed, same⟩ := finish_ok finished
  obtain ⟨rfl, rfl, rfl⟩ := Request.mk.inj same
  have read : PathAndQuery.parse (Bytes.ofText { draft with headers := other }.target) =
      .ok target := parsed
  rw [finish, read]
  rfl

theorem normal_normalizeHeaders (draft : Draft) (name : HeaderName) :
    ∀ value ∈ draft.normalizeHeaders.headers.values name, value.normalize = value := by
  intro value member
  rw [normalizeHeaders, Headers.values_mapValues] at member
  obtain ⟨own, _, rfl⟩ := List.mem_map.mp member
  exact own.normalize_normalize

end Draft

namespace PayloadStrategy

variable {draft : Draft} {body : Option Bytes} {hash : PayloadHash}

theorem normal_encode (bytes : Bytes) :
    HeaderValue.normal (Bytes.ofText (Hex.encode bytes)) = Bytes.ofText (Hex.encode bytes) := by
  apply HeaderValue.normal_solid
  intro octet member
  have digit := Hex.isLowerDigit_of_mem_digits (Hex.ofText_encode _ ▸ member)
  exact Bytes.apart_of_class digit (by decide +kernel)

/-- A full hash that comes from normal headers is written as it is read. -/
theorem fullHash_settled
    (normal : ∀ value ∈ draft.headers.values .amzContentSha256, value.normalize = value)
    (hashed : fullHash draft body = .ok hash) :
    hash = .digest hash.text ∧ Readable hash.text ∧
      HeaderValue.normal (Bytes.ofText hash.text) = Bytes.ofText hash.text := by
  rcases fullHash_cases hashed with ⟨value, rest, text, present, spelled, rfl⟩ | ⟨_, octets, _, rfl⟩
  · have settled := normal value (present ▸ List.mem_cons_self)
    refine ⟨rfl, Draft.readable_of_readValue spelled, ?_⟩
    rw [PayloadHash.text, (Draft.readValue_ok spelled).1, ← HeaderValue.octets_normalize, settled]
  · exact ⟨rfl, readable_encode _, normal_encode _⟩

theorem fullHash_announced {value : HeaderValue} {rest : List HeaderValue} {text : String}
    (present : draft.headers.values .amzContentSha256 = value :: rest)
    (octets : value.octets = Bytes.ofText text) (readable : Readable text) :
    fullHash draft body = .ok (.digest text) := by
  rw [fullHash_present present, Draft.readValue, HeaderValue.readable?_of_octets octets readable]
  rfl

/-- What was announced before is resolved to the same hash again. -/
theorem resolve_announced {strategy : PayloadStrategy} {later : Draft} {value : HeaderValue}
    (normal : ∀ value ∈ draft.headers.values .amzContentSha256, value.normalize = value)
    (schemes : later.scheme = draft.scheme)
    (present : later.headers.values .amzContentSha256 = [value])
    (octets : value.octets = HeaderValue.normal (Bytes.ofText hash.text))
    (resolved : strategy.resolve draft body = .ok hash) :
    strategy.resolve later body = .ok hash := by
  have full : fullHash draft body = .ok hash → fullHash later body = .ok hash := by
    intro hashed
    obtain ⟨digest, readable, settled⟩ := fullHash_settled normal hashed
    rw [fullHash_announced present (octets.trans settled) readable, ← digest]
  cases strategy with
  | full => exact full resolved
  | unsignedOverTls =>
      have encrypted : later.isEncrypted = draft.isEncrypted := by
        rw [Draft.isEncrypted, Draft.isEncrypted, schemes]
      simp only [resolve, encrypted] at resolved ⊢
      split at resolved
      · next secure => rwa [if_pos secure]
      · next plain =>
          rw [if_neg plain]
          exact Success.mapError_ok.mpr (full (Success.mapError_ok.mp resolved))
  | streaming => exact resolved

end PayloadStrategy

namespace Signer

/-- What signing in a header finds in a request, whatever the time is. -/
structure Findings where
  source : Draft
  token : Option HeaderValue
  hash : PayloadHash
  checksum : Option HeaderValue
  uri : Uri

namespace Findings

def fill (found : Findings) (scope : Scope) : Fill where
  host := found.source.authority.hostValue
  date := scope.dateValue
  token := found.token
  checksum := found.checksum

def draft (found : Findings) (scope : Scope) : Draft := found.source.filled (found.fill scope)

def signed (found : Findings) (scope : Scope) (authorization : HeaderValue) : Request where
  method := found.source.method
  uri := found.uri
  headers := (found.draft scope).headers.insert .authorization authorization

/-- The findings are those of a request, and nothing but its time can still keep it from being
signed. -/
structure Of (found : Findings) (signer : Signer) (request : Request) (body : Option Bytes)
    (credential : Credential) : Prop where
  allowed : signer.check credential .header = .ok ()
  source : Draft.ofRequest request = .ok found.source
  token : credential.tokenValue = .ok found.token
  hash : signer.strategy.resolve found.source.normalizeHeaders body = .ok found.hash
  checksum : signer.checksumValue found.hash = .ok found.checksum
  uri : Draft.finish { found.source with query := Canonical.sortedQuery found.source.query } =
    .ok ⟨found.source.method, found.uri, found.source.headers⟩

end Findings

variable {signer : Signer} {request : Request} {body : Option Bytes} {credential : Credential}
  {found : Findings} {clock : Clock} {output : SigningOutput} {canonical : Canonical}
  {authorized : HeaderValue}

theorem sign_header_ok
    (done : (signer.sign request body credential .header clock).result = .ok output) :
    ∃ (found : Findings) (canonical : Canonical) (authorized : HeaderValue),
      found.Of signer request body credential ∧
      Canonical.ofDraft (found.draft (signer.scope clock.now)) found.hash = .ok canonical ∧
      HeaderValue.checked (authorization credential (signer.scope clock.now) canonical) true =
        .ok authorized ∧
      (signer.sign request body credential .header clock).request =
        found.signed (signer.scope clock.now) authorized := by
  have allowed := allowed_of_done done
  obtain ⟨draft, hash, canonical, prepared, built, placed, _⟩ := signAt_ok (sign_ok done)
  obtain ⟨source, token, checksum, taken, tokened, hashed, announced, rfl⟩ :=
    prepare_header_ok prepared
  obtain ⟨authorized, made, finished⟩ := place_header_iff.mp placed
  generalize (signer.sign request body credential .header clock).request = signed at finished ⊢
  obtain ⟨target, _, rfl⟩ := Draft.finish_ok finished
  have uri := Draft.finish_headers finished source.headers
  exact ⟨⟨source, token, hash, checksum, _⟩, canonical, authorized,
    ⟨allowed, taken, tokened, hashed, announced, uri⟩, built, made, rfl⟩

theorem prepare_found (of : found.Of signer request body credential) (scope : Scope) :
    signer.prepare request body credential .header scope = .ok (found.draft scope, found.hash) := by
  rw [prepare_header_eq, of.source]
  simp only [bind, Except.bind, of.token, of.hash, of.checksum]
  rfl

theorem sign_found (of : found.Of signer request body credential)
    (built : Canonical.ofDraft (found.draft (signer.scope clock.now)) found.hash = .ok canonical)
    (made : HeaderValue.checked (authorization credential (signer.scope clock.now) canonical) true =
      .ok authorized) :
    (signer.sign request body credential .header clock).result =
        .ok ⟨signature credential (signer.scope clock.now) canonical, signer.scope clock.now,
          canonical.signedHeaders, found.hash⟩ ∧
      (signer.sign request body credential .header clock).request =
        found.signed (signer.scope clock.now) authorized := by
  have placed : place (found.draft (signer.scope clock.now)) credential .header
      (signer.scope clock.now) canonical = .ok (found.signed (signer.scope clock.now) authorized) :=
    place_header_iff.mpr ⟨authorized, made, Draft.finish_headers of.uri _⟩
  exact sign_placed of.allowed (prepare_found of _) built placed

-- Neither the time nor the request decides whether an authorization can be sent.
theorem sendable_authorization (signer : Signer) (credential : Credential) (time : Instant)
    (canonical : Canonical) :
    Sendable (authorization credential (signer.scope time) canonical) ↔
      Sendable credential.accessKeyId ∧ Sendable signer.region ∧ Sendable signer.service := by
  have fixed : Sendable Signature.requestAlgorithm ∧ Sendable " Credential=" ∧ Sendable "/" ∧
      Sendable Scope.terminator ∧ Sendable ", SignedHeaders=" ∧ Sendable ", Signature=" := by
    simp only [Sendable, ← List.all_eq_true]
    exact ⟨rfl, rfl, rfl, rfl, rfl, rfl⟩
  have date : Sendable (signer.scope time).date := fun octet member =>
    Bytes.of_class (Instant.isDateByte_of_mem_dateText member) (by decide +kernel)
  have names : Sendable canonical.signedHeaders := sendable_of_readable (readable_namesText _)
  have signed : Sendable (signature credential (signer.scope time) canonical) :=
    sendable_of_readable (readable_encode _)
  have scope : (signer.scope time).text = (signer.scope time).date ++ "/" ++ signer.region ++ "/" ++
      signer.service ++ "/" ++ Scope.terminator := rfl
  rw [authorization, credentialText, scope]
  simp only [sendable_append, fixed, date, names, signed, true_and, and_true]

namespace Findings

variable {first second : Scope}

theorem values_draft (found : Findings) (scope : Scope) (name : HeaderName) :
    (found.draft scope).headers.values name =
      (found.fill scope).values name ((found.source.headers.values name).map (·.normalize)) :=
  Draft.values_filled found.source (found.fill scope) name

theorem values_other {name : HeaderName} (other : name ≠ .amzDate) :
    (found.draft second).headers.values name = (found.draft first).headers.values name := by
  rw [values_draft, values_draft, Fill.values, Fill.values, if_neg other, if_neg other]
  rfl

theorem joined_date (found : Findings) (scope : Scope) :
    ∃ text, (found.draft scope).headerJoined .amzDate = .ok text := by
  have octets : scope.dateValue.octets = Bytes.ofText scope.datetime := rfl
  have spelled := HeaderValue.readable?_of_octets octets scope.time.readable_datetimeText
  rw [Draft.headerJoined, draft, Draft.date_filled, fill]
  refine ⟨_, Success.map_ok.mpr ⟨[scope.datetime], Success.mapM_ok.mpr (.cons ?_ .nil), rfl⟩⟩
  rw [Draft.readValue, spelled]

/-- A request that can be signed at one time can be signed at any. -/
theorem built_redated (built : Canonical.ofDraft (found.draft first) found.hash = .ok canonical) :
    ∃ canonical, Canonical.ofDraft (found.draft second) found.hash = .ok canonical := by
  obtain ⟨path, each⟩ := Canonical.exists_ofDraft.mp ⟨canonical, built⟩
  refine Canonical.exists_ofDraft.mpr ⟨path, fun name signed => ?_⟩
  by_cases date : name = .amzDate
  · exact date ▸ found.joined_date second
  · obtain ⟨text, joined⟩ := each name signed
    exact ⟨text, by rw [Draft.headerJoined, values_other date]; exact joined⟩

def again (found : Findings) (scope : Scope) (authorized : HeaderValue) : Findings :=
  { found with
    source :=
      { found.source with
        query := Canonical.sortedPairs found.source.query
        headers := (found.signed scope authorized).headers } }

/-- The authorization is the last to be set, so it hides no other header. -/
theorem values_signed {scope : Scope} {name : HeaderName} (other : name ≠ .authorization) :
    (found.signed scope authorized).headers.values name =
      (found.draft scope).headers.values name := by
  rw [signed, Headers.values_insert, if_neg (Ne.symm other)]

theorem normal_source (found : Findings) (name : HeaderName) :
    ((found.source.headers.values name).map (·.normalize)).map (·.normalize) =
      (found.source.headers.values name).map (·.normalize) := by
  rw [List.map_map]
  exact List.map_congr_left fun value _ => value.normalize_normalize

theorem resolve_again (of : found.Of signer request body credential) :
    signer.strategy.resolve (found.again first authorized).source.normalizeHeaders body =
      .ok found.hash := by
  have values : (found.again first authorized).source.normalizeHeaders.headers.values
      .amzContentSha256 = ((found.fill first).values .amzContentSha256
        ((found.source.headers.values .amzContentSha256).map (·.normalize))).map (·.normalize) := by
    rw [Draft.normalizeHeaders, Headers.values_mapValues, ← values_draft,
      ← values_signed (by decide)]
    rfl
  cases announced : found.checksum with
  | none =>
      rw [← of.hash]
      apply PayloadStrategy.resolve_congr
      case same =>
        rw [Headers.octets, Headers.octets, values, Draft.normalizeHeaders, Headers.values_mapValues,
          Fill.values, if_pos rfl, fill, announced]
        exact congrArg (List.map (·.octets)) (found.normal_source .amzContentSha256)
      case schemes => rfl
  | some checksum =>
      have octets := octets_of_checksum (announced ▸ of.checksum)
      rw [Fill.values, if_pos rfl, fill, announced] at values
      exact PayloadStrategy.resolve_announced (found.source.normal_normalizeHeaders _) rfl values
        (congrArg HeaderValue.normal octets) of.hash

theorem again_of (full : ("", "") ∉ found.source.query)
    (of : found.Of signer request body credential) :
    (found.again first authorized).Of signer (found.signed first authorized) body credential := by
  obtain ⟨_, valid, spelled⟩ := Draft.ofRequest_ok of.source
  have finished : Draft.finish
      { (found.again first authorized).source with
        query := Canonical.sortedQuery found.source.query } = .ok (found.signed first authorized) :=
    Draft.finish_headers of.uri _
  refine ⟨of.allowed, ?source, of.token, resolve_again of, of.checksum, ?uri⟩
  case source =>
    refine Draft.ofRequest_finish ?_ ?_ full rfl finished
    · exact valid
    · exact spelled
  case uri =>
    have sorted : Canonical.sortedQuery (found.again first authorized).source.query =
        Canonical.sortedQuery found.source.query := Canonical.sortedQuery_sortedPairs _
    rw [sorted, finished]
    rfl

theorem values_again {name : HeaderName} (other : name ≠ .authorization) :
    ((found.again first authorized).draft second).headers.values name =
      (found.draft second).headers.values name := by
  have own : (found.again first authorized).source.headers.values name =
      (found.fill first).values name ((found.source.headers.values name).map (·.normalize)) := by
    rw [← values_draft, ← values_signed other]
    rfl
  rw [values_draft, values_draft, own]
  exact Fill.values_redated found.source.authority.normalize_hostValue second.dateValue
    (found.normal_source name) name

theorem again_alike (found : Findings) (authorized : HeaderValue) :
    ((found.again first authorized).draft second).Alike (found.draft second) := by
  refine ⟨rfl, rfl, Canonical.sortedPairs_perm _, fun name signed => ?_⟩
  have other : name ≠ .authorization := by
    rintro rfl
    exact signed (by decide)
  rw [Headers.octets, Headers.octets, values_again other]

end Findings

/-- Signing again absorbs the signature that is there: it gives what signing the first request at
that time gives. -/
theorem resigning_absorbs {first second : Clock}
    (full : ("", "") ∉ request.uri.pathAndQuery.pairs)
    (done : (signer.sign request body credential .header first).result = .ok output) :
    ∃ result,
      (signer.sign request body credential .header second).result = .ok result ∧
      (signer.sign (signer.sign request body credential .header first).request body credential
        .header second).result = .ok result ∧
      (signer.sign (signer.sign request body credential .header first).request body credential
        .header second).request.Same
        (signer.sign request body credential .header second).request := by
  obtain ⟨found, canonical, authorized, of, built, made, left⟩ := sign_header_ok done
  obtain ⟨query, _, _⟩ := Draft.ofRequest_ok of.source
  have sendable := (sendable_authorization signer credential first.now canonical).mp
    (HeaderValue.sendable_of_checked made)
  obtain ⟨redated, rebuilt⟩ := Findings.built_redated built
  have remade := HeaderValue.checked_sendable
    ((sendable_authorization signer credential second.now redated).mpr sendable) true
  obtain ⟨fresh, freshRequest⟩ := sign_found of rebuilt remade
  have same : Canonical.ofDraft ((found.again (signer.scope first.now) authorized).draft
      (signer.scope second.now)) found.hash = .ok redated := by
    rw [Canonical.ofDraft_congr (found.again_alike authorized), rebuilt]
  obtain ⟨again, againRequest⟩ := sign_found (Findings.again_of (query ▸ full) of) same remade
  rw [left]
  refine ⟨_, fresh, again, ?_⟩
  rw [freshRequest, againRequest]
  refine ⟨rfl, rfl, fun name => ?_⟩
  by_cases other : name = .authorization
  · subst other
    simp [Findings.signed]
  · rw [Findings.values_signed other, Findings.values_signed other, Findings.values_again other]

-- The listing, signed on the next day over the signature of the first.
def nextDay : Clock where
  now :=
    { Instant.epoch with
      seconds := 86400
      leap_at_end := by decide
      not_before := by decide
      not_after := by decide }
  later := []

theorem listing_absorbs :
    ∃ first result,
      listed.result = .ok first ∧
      (lister.sign (listing "b=2&a" rfl .empty) (some []) listerKeys .header nextDay).result =
        .ok result ∧
      (lister.sign listed.request (some []) listerKeys .header nextDay).result = .ok result ∧
      (lister.sign listed.request (some []) listerKeys .header nextDay).request.Same
        (lister.sign (listing "b=2&a" rfl .empty) (some []) listerKeys .header nextDay).request := by
  obtain ⟨output, done⟩ := listing_signed
  have full : ("", "") ∉ (listing "b=2&a" rfl .empty).uri.pathAndQuery.pairs := by
    decide +kernel
  obtain ⟨result, fresh, again, same⟩ := resigning_absorbs full done
  exact ⟨output, result, done, fresh, again, same⟩

end Signer

end SigV4
