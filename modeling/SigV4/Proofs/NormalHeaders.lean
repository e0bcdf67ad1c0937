import SigV4.Proofs.AnnouncedHash
import SigV4.Proofs.CarriedRequest
/-!
Normal forms of what is signed. The headers of a request are brought into normal form before any
other is written; a host, a date and a hash that are written later are in normal form by what they
are. The token of a credential is written as it is, so it is the one value that is signed in
whatever form it has.
-/
namespace SigV4

namespace Headers

def Normal (headers : Headers) (name : HeaderName) : Prop :=
  ∀ value ∈ headers.values name, value.normalize = value

theorem Kept.normal {before after : Headers} {name : HeaderName} (kept : before.Kept after name) :
    after.Normal name := by
  intro value member
  rw [kept.values] at member
  obtain ⟨own, _, rfl⟩ := List.mem_map.mp member
  exact own.normalize_normalize

theorem normal_singleton {headers : Headers} {name : HeaderName} {value : HeaderValue}
    (alone : headers.values name = [value]) :
    headers.Normal name ↔ value.normalize = value := by
  rw [Normal, alone, List.forall_mem_singleton]

end Headers

/-- Nothing in the text of an instant is blank. -/
theorem Instant.normal_datetimeText (instant : Instant) :
    HeaderValue.normal (Bytes.ofText instant.datetimeText) = Bytes.ofText instant.datetimeText :=
  HeaderValue.normal_solid fun _ member =>
    Bytes.apart_of_class (isStampByte_of_mem_datetimeText member) (by decide +kernel)

theorem Draft.pieces_of_joinedText {values : List HeaderValue} {line : String}
    (joined : joinedText values = .ok line) :
    ∃ pieces, line = String.intercalate "," pieces ∧
      pieces.map Bytes.ofText = values.map (·.octets) := by
  obtain ⟨pieces, read, rfl⟩ := Success.map_ok.mp joined
  refine ⟨pieces, rfl, ?_⟩
  have related := Success.mapM_ok.mp read
  clear joined read
  induction related with
  | nil => rfl
  | cons spelled _ ih => rw [List.map_cons, List.map_cons, ih, (readValue_ok spelled).1]

namespace Signer

variable {signer : Signer} {request signed : Request} {body : Option Bytes}
  {credential : Credential} {placement : Placement} {scope : Scope} {draft : Draft}
  {hash : PayloadHash} {canonical : Canonical} {clock : Clock} {output : SigningOutput}

/-- A line is put together from the values that are sent. -/
theorem pieces_of_line
    (placed : place draft credential placement scope canonical = .ok signed)
    (built : Canonical.ofDraft draft hash = .ok canonical) {name : HeaderName} {line : String}
    (member : (name, line) ∈ canonical.headers) :
    ∃ pieces, line = String.intercalate "," pieces ∧
      pieces.map Bytes.ofText = (signed.headers.values name).map (·.octets) := by
  obtain ⟨listed, joined⟩ := (Canonical.mem_headers_iff built).mp member
  obtain ⟨pieces, whole, octets⟩ := Draft.pieces_of_joinedText joined
  obtain ⟨pairs, headers, finished, alike⟩ := place_written placed
  obtain ⟨target, _, rfl⟩ := Draft.finish_ok finished
  have same := alike name (Headers.mem_namesExcept_iff.mp listed).1
  exact ⟨pieces, whole, octets.trans same.symm⟩

/-- A hash is brought in normal form, or it is written so. -/
theorem normal_hash {strategy : PayloadStrategy}
    (resolved : strategy.resolve draft.normalizeHeaders body = .ok hash) :
    HeaderValue.normal (Bytes.ofText hash.text) = Bytes.ofText hash.text := by
  rcases PayloadStrategy.resolve_cases resolved with full | loud
  · exact (PayloadStrategy.fullHash_settled (draft.normal_normalizeHeaders _) full).2.2
  · cases hash with
    | digest text => contradiction
    | unsigned => decide
    | streamingEvents => decide

section Header

variable (done : (signer.sign request body credential .header clock).result = .ok output)
include done

theorem normal_date :
    (signer.sign request body credential .header clock).request.headers.Normal .amzDate := by
  obtain ⟨value, alone, octets⟩ := (stamped_of_done done).date
  rw [Headers.normal_singleton alone]
  apply HeaderValue.normalize_eq_self
  rw [octets]
  exact output.scope.time.normal_datetimeText

theorem normal_checksum :
    (signer.sign request body credential .header clock).request.headers.Normal
      .amzContentSha256 := by
  obtain ⟨found, canonical, authorized, of, _, left, _⟩ := found_of_done done
  rw [left]
  cases loud : signer.announces found.hash with
  | true =>
      obtain ⟨value, alone, octets⟩ : ∃ value,
          (found.signed output.scope authorized).headers.values .amzContentSha256 = [value] ∧
            value.octets = Bytes.ofText found.hash.text := Findings.announced of loud
      rw [Headers.normal_singleton alone]
      apply HeaderValue.normalize_eq_self
      rw [octets]
      exact normal_hash of.hash
  | false => exact (Headers.kept_of_values (Findings.unannounced of loud)).normal

/-- The token is in normal form just if that of the credential is. -/
theorem normal_token_iff :
    (signer.sign request body credential .header clock).request.headers.Normal .amzSecurityToken ↔
      ∀ token ∈ credential.sessionToken, HeaderValue.Tidy (Bytes.ofText token) := by
  have stamped := stamped_of_done done
  cases held : credential.sessionToken with
  | none =>
      constructor
      · intro _ token given
        contradiction
      · exact fun _ => (stamped.lasting held).normal
  | some token =>
      obtain ⟨value, alone, octets, _⟩ := stamped.temporary token held
      rw [Headers.normal_singleton alone, HeaderValue.normalize_eq_iff, octets]
      simp

end Header

section Done

variable (done : (signer.sign request body credential placement clock).result = .ok output)
include done

theorem normal_host :
    (signer.sign request body credential placement clock).request.headers.Normal .host := by
  have carried := carried_of_done done
  by_cases absent : request.headers.values .host = []
  · obtain ⟨authority, _, alone⟩ := carried.missing absent
    exact (Headers.normal_singleton alone).mpr authority.normalize_hostValue
  · exact (carried.host absent).normal

theorem normal_of_done {name : HeaderName} (covered : name.text ∉ Canonical.unsignedHeaders)
    (lasting : name ≠ .amzSecurityToken) :
    (signer.sign request body credential placement clock).request.headers.Normal name := by
  by_cases host : name = .host
  · exact host ▸ normal_host done
  cases placement with
  | query expiry => exact (kept_of_presigned done host).normal
  | header =>
      by_cases date : name = .amzDate
      · exact date ▸ normal_date done
      by_cases checksum : name = .amzContentSha256
      · exact checksum ▸ normal_checksum done
      have authorization : name ≠ .authorization := by
        rintro rfl
        exact covered (by decide)
      refine (kept_of_done done ?_).normal
      simp [Headers.signingNames, Fill.names, authorization, host, date, lasting, checksum]

end Done

/-- Every value that is signed is in normal form, but for the token of a credential, which is so
just if it came so. -/
theorem signed_values_normal_iff (signing : Signing)
    (called : signer.sign request body credential placement clock = signing)
    (done : signing.result = .ok output) :
    ∃ canonical, signing.Covers credential output canonical ∧
      (∀ name line, (name, line) ∈ canonical.headers →
        ∃ pieces, line = String.intercalate "," pieces ∧
          pieces.map Bytes.ofText = (signing.request.headers.values name).map (·.octets)) ∧
      (∀ name : HeaderName, name.text ∉ Canonical.unsignedHeaders → name ≠ .amzSecurityToken →
        signing.request.headers.Normal name) ∧
      (signing.request.headers.Normal .amzSecurityToken ↔
        (placement = .header →
          ∀ token ∈ credential.sessionToken, HeaderValue.Tidy (Bytes.ofText token))) := by
  subst called
  obtain ⟨draft, hash, canonical, _, built, placed, _, _, covered⟩ := course_of_done done
  refine ⟨canonical, covered, fun name line => pieces_of_line placed built,
    fun name => normal_of_done done, ?token⟩
  case token =>
    cases placement with
    | header =>
        rw [normal_token_iff done]
        simp
    | query expiry =>
        constructor
        · intro _ header
          contradiction
        · exact fun _ => (kept_of_presigned done (by decide)).normal

-- An errand of a guest whose token has two spaces in a row. Its payload is left out, so that no
-- digest has to be calculated.
def gappedKeys : Credential := ⟨"AKID", "secret", some "a  b"⟩

def gappedToken : HeaderName × HeaderValue := parcelHeader .amzSecurityToken "a  b" true rfl

def gappedSigner : Signer := { lister with strategy := .unsignedOverTls }

def gapped : Signing :=
  gappedSigner.sign (errand .https .empty) none gappedKeys .header ⟨Instant.epoch, []⟩

def gappedHeaders : Headers :=
  ⟨[(.host, listingDraft.authority.hostValue), (.amzDate, parcelScope.dateValue), gappedToken,
    unsignedHeader]⟩

def gappedLines : List (HeaderName × String) :=
  [(.host, "bucket.test"), (.amzContentSha256, "UNSIGNED-PAYLOAD"), (.amzDate, "19700101T000000Z"),
    (.amzSecurityToken, "a  b")]

theorem gapped_signed : ∃ output authorized, gapped.result = .ok output ∧
    output.payloadHash = .unsigned ∧
    gapped.request = errand .https (gappedHeaders.insert .authorization authorized) ∧
    gapped.Covers gappedKeys output (errandCanonical gappedLines .unsigned) := by
  have of : (errandFound .https .empty .unsigned (some gappedToken.2) (some unsignedHeader.2)).Of
      gappedSigner (errand .https .empty) none gappedKeys := errand_found rfl rfl rfl rfl
  have names : gappedHeaders.namesExcept Canonical.unsignedHeaders = gappedLines.map (·.1) :=
    Headers.namesExcept_eq (by decide +kernel) (by decide +kernel) (by decide +kernel)
  exact errand_signed of (by decide +kernel) (ofDraft_errand names (by cbv)) (by decide)

theorem gapped_values : ∃ output canonical, gapped.result = .ok output ∧
    gapped.Covers gappedKeys output canonical ∧ gapped.request.headers.Normal .host ∧
    gapped.request.headers.Normal .amzDate ∧ gapped.request.headers.Normal .amzContentSha256 ∧
    ¬ gapped.request.headers.Normal .amzSecurityToken := by
  obtain ⟨output, _, done, _⟩ := gapped_signed
  obtain ⟨canonical, covered, _, normal, token⟩ := signed_values_normal_iff gapped rfl done
  refine ⟨output, canonical, done, covered, normal _ (by decide) (by decide),
    normal _ (by decide) (by decide), normal _ (by decide) (by decide), ?_⟩
  rw [token]
  intro tidy
  exact absurd (tidy rfl "a  b" rfl) (by decide)

/-- A receiver that brings the token into normal form reads another line than the one that is
signed. -/
theorem gapped_token_signed : ∃ output canonical, gapped.result = .ok output ∧
    gapped.Covers gappedKeys output canonical ∧ (.amzSecurityToken, "a  b") ∈ canonical.headers ∧
    ∃ value, gapped.request.headers.values .amzSecurityToken = [value] ∧
      value.octets = Bytes.ofText "a  b" ∧ value.normalize.octets = Bytes.ofText "a b" := by
  obtain ⟨output, authorized, done, _, left, covered⟩ := gapped_signed
  refine ⟨output, _, done, covered, by decide, gappedToken.2, ?_, rfl, by decide⟩
  have other : HeaderName.authorization ≠ .amzSecurityToken := by decide
  rw [left, errand, Headers.values_insert, if_neg other]
  decide +kernel

end Signer

end SigV4
