import SigV4.Proofs.AnnouncedHash
/-!
Payloads over a transport that is not encrypted. No strategy but that of streams leaves one out of
the signature there, yet a hash that the request brings is taken as it is: so what stands for a
payload that was not hashed is signed and sent just when the request brings it, be it from its
caller or from an earlier signing over an encrypted transport.
-/
namespace SigV4

namespace PayloadStrategy

variable {strategy : PayloadStrategy} {draft : Draft} {body : Option Bytes} {hash : PayloadHash}

theorem fullHash_of_plain (plain : draft.isEncrypted = false) (whole : strategy ≠ .streaming)
    (resolved : strategy.resolve draft body = .ok hash) : fullHash draft body = .ok hash := by
  cases strategy with
  | full => exact resolved
  | unsignedOverTls =>
      simp only [resolve, plain] at resolved
      exact Success.mapError_ok.mp resolved
  | streaming => exact absurd rfl whole

end PayloadStrategy

namespace Signer

variable {signer : Signer} {request : Request} {body : Option Bytes} {credential : Credential}
  {scope : Scope} {clock : Clock} {output : SigningOutput}

namespace Findings

variable {found : Findings} {authorized : HeaderValue}
  (of : found.Of signer request body credential)
include of

/-- A request that names no scheme goes over a plain transport. -/
theorem isEncrypted_iff :
    found.source.normalizeHeaders.isEncrypted = true ↔ request.uri.scheme = some .https := by
  obtain ⟨authority, _, taken⟩ := Draft.ofRequest_iff.mp of.source
  rw [Draft.isEncrypted, Draft.normalizeHeaders, taken, decide_eq_true_eq]
  cases request.uri.scheme with
  | none => simp
  | some scheme => simp

variable (plain : request.uri.scheme ≠ some .https) (whole : signer.strategy ≠ .streaming)
include plain whole

theorem fullHash_of_found :
    PayloadStrategy.fullHash found.source.normalizeHeaders body = .ok found.hash := by
  have exposed : found.source.normalizeHeaders.isEncrypted = false := by
    rw [← Bool.not_eq_true, isEncrypted_iff of]
    exact plain
  exact PayloadStrategy.fullHash_of_plain exposed whole of.hash

theorem quiet_of_plain : found.hash.requiresHeader = false :=
  (PayloadStrategy.octets_fullHash (fullHash_of_found of plain whole)).1

/-- What is signed stands for a payload that was not hashed, just if it was brought first. -/
theorem unsigned_iff : found.hash.text = PayloadHash.unsigned.text ↔
    request.broughtHashes.head? = some PayloadHash.unsigned.octets :=
  sentinel_brought_iff of rfl (fullHash_of_found of plain whole)

theorem hashed_of_none (nothing : request.broughtHashes = []) :
    ∃ octets ∈ body, found.hash.text = Sha256.hexHash octets := by
  obtain ⟨_, brought | ⟨_, digest⟩⟩ :=
    PayloadStrategy.octets_fullHash (fullHash_of_found of plain whole)
  · rw [← List.head?_map, octets_brought of, nothing] at brought
    contradiction
  · exact digest

/-- A hash that is announced replaces all that were brought; else all of them are sent. -/
theorem sent_unsigned_iff :
    PayloadHash.unsigned.octets ∈
        ((found.signed scope authorized).headers.values .amzContentSha256).map (·.octets) ↔
      if signer.checksumHeader then
        request.broughtHashes.head? = some PayloadHash.unsigned.octets
      else PayloadHash.unsigned.octets ∈ request.broughtHashes := by
  have announces : signer.announces found.hash = signer.checksumHeader := by
    rw [Signer.announces, quiet_of_plain of plain whole, Bool.false_or]
  cases loud : signer.checksumHeader with
  | true =>
      obtain ⟨value, alone, octets⟩ : ∃ value,
          (found.signed scope authorized).headers.values .amzContentSha256 = [value] ∧
            value.octets = Bytes.ofText found.hash.text := announced of (announces.trans loud)
      rw [if_pos rfl, ← unsigned_iff of plain whole, alone, List.map_singleton, octets,
        List.mem_singleton]
      constructor
      · exact fun same => (Bytes.ofText_injective same).symm
      · exact fun same => congrArg Bytes.ofText same.symm
  | false =>
      rw [unannounced of (announces.trans loud), List.map_map]
      rfl

end Findings

/-- Over a transport that is not encrypted, what stands for a payload that was not hashed is signed
just if the request brings it first, and sent just if the request brings it and it is not
replaced. -/
theorem plain_sentinel_iff_brought (signing : Signing)
    (called : signer.sign request body credential .header clock = signing)
    (done : signing.result = .ok output) (plain : request.uri.scheme ≠ some .https)
    (whole : signer.strategy ≠ .streaming) :
    ∃ canonical, signing.Covers credential output canonical ∧
      canonical.payloadHash = output.payloadHash.text ∧
      output.payloadHash.requiresHeader = false ∧
      (canonical.payloadHash = PayloadHash.unsigned.text ↔
        request.broughtHashes.head? = some PayloadHash.unsigned.octets) ∧
      (PayloadHash.unsigned.octets ∈
          (signing.request.headers.values .amzContentSha256).map (·.octets) ↔
        if signer.checksumHeader then
          request.broughtHashes.head? = some PayloadHash.unsigned.octets
        else PayloadHash.unsigned.octets ∈ request.broughtHashes) ∧
      (request.broughtHashes = [] →
        ∃ octets ∈ body, canonical.payloadHash = Sha256.hexHash octets) := by
  subst called
  obtain ⟨found, canonical, authorized, of, built, left, _, same, covered⟩ := found_of_done done
  have payload : canonical.payloadHash = found.hash.text := Canonical.payloadHash_ofDraft built
  rw [left, same]
  refine ⟨canonical, covered, payload, found.quiet_of_plain of plain whole, ?signed,
    found.sent_unsigned_iff of plain whole, ?hashed⟩
  case signed =>
    rw [payload]
    exact found.unsigned_iff of plain whole
  case hashed =>
    rw [payload]
    exact found.hashed_of_none of plain whole

/-- What a signing over an encrypted transport announces of a payload that is left out. -/
theorem brought_of_encrypted (encrypted : request.uri.scheme = some .https)
    (sparing : signer.strategy = .unsignedOverTls)
    (done : (signer.sign request body credential .header clock).result = .ok output) :
    (signer.sign request body credential .header clock).request.broughtHashes =
      [PayloadHash.unsigned.octets] := by
  obtain ⟨found, canonical, authorized, of, built, left, _, _, _⟩ := found_of_done done
  have secure := (found.isEncrypted_iff of).mpr encrypted
  have unhashed : PayloadHash.unsigned = found.hash := by
    have resolved := of.hash
    simp only [sparing, PayloadStrategy.resolve, secure, if_true] at resolved
    exact Except.ok.inj resolved
  obtain ⟨value, alone, octets, _⟩ := sentinel_of_found of built (unhashed ▸ rfl)
  rw [Request.broughtHashes, left, alone, List.map_singleton, octets, ← unhashed]
  decide

-- A request that takes the headers of its first signing to a plain transport is signed there as one
-- whose payload was not hashed, whoever signs it.
theorem sentinel_of_redirected {second : Signer} {content : Option Bytes} {keys : Credential}
    {later : Clock} {uri : Uri} {result : SigningOutput}
    (encrypted : request.uri.scheme = some .https)
    (sparing : signer.strategy = .unsignedOverTls)
    (first : (signer.sign request body credential .header clock).result = .ok output)
    (plain : uri.scheme ≠ some .https) (whole : second.strategy ≠ .streaming)
    (done : (second.sign { (signer.sign request body credential .header clock).request with
      uri := uri } content keys .header later).result = .ok result) :
    result.payloadHash = .digest PayloadHash.unsigned.text ∧
      PayloadHash.unsigned.octets ∈ ((second.sign
        { (signer.sign request body credential .header clock).request with uri := uri }
        content keys .header later).request.headers.values .amzContentSha256).map (·.octets) := by
  have brought := brought_of_encrypted encrypted sparing first
  generalize (signer.sign request body credential .header clock).request = redirected at *
  obtain ⟨found, canonical, authorized, of, _, left, _, same, _⟩ := found_of_done done
  have front : Request.broughtHashes { redirected with uri := uri } =
      [PayloadHash.unsigned.octets] := brought
  have text : found.hash.text = PayloadHash.unsigned.text := by
    rw [found.unsigned_iff of plain whole, front]
    rfl
  constructor
  · have quiet := found.quiet_of_plain of plain whole
    rw [same]
    cases hash : found.hash with
    | digest own =>
        rw [hash] at text
        exact congrArg _ text
    | unsigned => simp [hash, PayloadHash.requiresHeader] at quiet
    | streamingEvents => simp [hash, PayloadHash.requiresHeader] at quiet
  · rw [left, found.sent_unsigned_iff of plain whole, front]
    split
    · rfl
    · exact List.mem_singleton.mpr rfl

-- An errand is signed over an encrypted transport, loses its authorization to a redirect, and is
-- signed again on its way over a plain one. Its payload is at hand both times.
def opportunist : Signer := ⟨"s3", "us-east-1", .unsignedOverTls, true⟩

def letter : Option Bytes := some (Bytes.ofText "abc")

def leftHeaders : Headers :=
  ⟨[(.host, listingDraft.authority.hostValue), (.amzDate, parcelScope.dateValue), unsignedHeader]⟩

def secured : Signing :=
  opportunist.sign (errand .https .empty) letter listerKeys .header ⟨Instant.epoch, []⟩

def redirected : Signing :=
  opportunist.sign (errand .http leftHeaders) letter listerKeys .header ⟨Instant.epoch, []⟩

def leftLines : List (HeaderName × String) :=
  [(.host, "bucket.test"), (.amzContentSha256, "UNSIGNED-PAYLOAD"), (.amzDate, "19700101T000000Z")]

theorem ofDraft_left (scheme : Scheme) (hash : PayloadHash) :
    Canonical.ofDraft (errandSource scheme leftHeaders) hash =
      .ok (errandCanonical leftLines hash) := by
  refine ofDraft_errand ?names ?joined
  case names =>
    exact Headers.namesExcept_eq (by decide +kernel) (by decide +kernel) (by decide +kernel)
  case joined => cbv

theorem secured_signed : ∃ output authorized, secured.result = .ok output ∧
    output.payloadHash = .unsigned ∧
    secured.request = errand .https (leftHeaders.insert .authorization authorized) ∧
    secured.Covers listerKeys output (errandCanonical leftLines .unsigned) :=
  errand_signed (errand_found rfl rfl rfl rfl) (by decide +kernel) (ofDraft_left .https .unsigned)
    (by decide)

theorem redirected_signed : ∃ output authorized, redirected.result = .ok output ∧
    output.payloadHash = .digest "UNSIGNED-PAYLOAD" ∧
    redirected.request = errand .http (leftHeaders.insert .authorization authorized) ∧
    redirected.Covers listerKeys output
      (errandCanonical leftLines (.digest "UNSIGNED-PAYLOAD")) := by
  have hashed : opportunist.strategy.resolve (errandSource .http leftHeaders).normalizeHeaders
      letter = .ok (.digest "UNSIGNED-PAYLOAD") := by cbv
  have of : (errandFound .http leftHeaders (.digest "UNSIGNED-PAYLOAD") none
      (some unsignedHeader.2)).Of opportunist (errand .http leftHeaders) letter listerKeys :=
    errand_found rfl rfl hashed rfl
  exact errand_signed of (by decide +kernel) (ofDraft_left .http _) (by decide)

theorem redirected_brings_sentinel :
    ∃ output canonical, redirected.result = .ok output ∧
      redirected.Covers listerKeys output canonical ∧
      (errand .http leftHeaders).uri.scheme ≠ some .https ∧ opportunist.strategy ≠ .streaming ∧
      canonical.payloadHash = PayloadHash.unsigned.text ∧
      PayloadHash.unsigned.octets ∈
        (redirected.request.headers.values .amzContentSha256).map (·.octets) := by
  obtain ⟨output, _, done, _⟩ := redirected_signed
  have plain : (errand .http leftHeaders).uri.scheme ≠ some .https := by decide
  have whole : opportunist.strategy ≠ .streaming := by decide
  obtain ⟨canonical, covered, _, _, signed, sent, _⟩ :=
    plain_sentinel_iff_brought redirected rfl done plain whole
  have brought : (errand .http leftHeaders).broughtHashes.head? =
      some PayloadHash.unsigned.octets := by decide +kernel
  exact ⟨output, canonical, done, covered, plain, whole, signed.mpr brought, sent.mpr brought⟩

/-- What a signing over an encrypted transport left is signed and sent over a plain one, as if the
payload had no hash. -/
theorem sentinel_sent_over_plain :
    (∃ output authorized, secured.result = .ok output ∧
      secured.request = errand .https (leftHeaders.insert .authorization authorized)) ∧
    ∃ output canonical, redirected.result = .ok output ∧
      redirected.Covers listerKeys output canonical ∧
      canonical.payloadHash = "UNSIGNED-PAYLOAD" ∧
      PayloadHash.unsigned.octets ∈
        (redirected.request.headers.values .amzContentSha256).map (·.octets) := by
  constructor
  · obtain ⟨output, authorized, done, _, left, _⟩ := secured_signed
    exact ⟨output, authorized, done, left⟩
  · obtain ⟨output, authorized, done, _, left, covered⟩ := redirected_signed
    refine ⟨output, _, done, covered, rfl, ?_⟩
    have other : HeaderName.authorization ≠ .amzContentSha256 := by decide
    have values : leftHeaders.values .amzContentSha256 = [unsignedHeader.2] := by decide +kernel
    rw [left, errand, Headers.values_insert, if_neg other, values]
    exact List.mem_singleton.mpr rfl

end Signer

end SigV4
