import SigV4.Proofs.FrameBinding
import SigV4.Proofs.SigningCourse
/-!
The hash of the payload, as it is announced and as it is signed. The one that is signed is written
at the end of the canonical text; the one that is announced stands in a header, and so in a line of
that text. A hash that the signer announces replaces what was there, so both are one. Where the
signer keeps quiet, the first of the hashes that the request brings is signed, and all of them stand
in the line: the two agree as long as the request brings no more than one.
-/
namespace SigV4

namespace Canonical

/-- The lines of the signed headers: one for each name that is signed, with its joined values. -/
theorem mem_headers_iff {draft : Draft} {hash : PayloadHash} {canonical : Canonical}
    (built : ofDraft draft hash = .ok canonical) {name : HeaderName} {line : String} :
    (name, line) ∈ canonical.headers ↔
      name ∈ draft.headers.namesExcept unsignedHeaders ∧ draft.headerJoined name = .ok line := by
  obtain ⟨decoded, headers, _, read, rfl⟩ := ofDraft_ok built
  constructor
  · intro member
    obtain ⟨other, listed, found⟩ := Success.mem_of_mapM read member
    obtain ⟨text, joined, same⟩ := Success.map_ok.mp found
    obtain ⟨rfl, rfl⟩ := Prod.mk.inj same
    exact ⟨listed, joined⟩
  · rintro ⟨listed, joined⟩
    obtain ⟨header, member, found⟩ := Success.exists_of_mapM read listed
    obtain ⟨text, again, rfl⟩ := Success.map_ok.mp found
    rw [Except.ok.inj (joined.symm.trans again)]
    exact member

theorem line_of_present {draft : Draft} {hash : PayloadHash} {canonical : Canonical}
    (built : ofDraft draft hash = .ok canonical) {name : HeaderName}
    (signed : name.text ∉ unsignedHeaders) (present : draft.headers.values name ≠ []) :
    ∃ line, draft.headerJoined name = .ok line ∧ (name, line) ∈ canonical.headers := by
  obtain ⟨line, joined⟩ := (exists_ofDraft.mp ⟨canonical, built⟩).2 name signed
  have listed := Headers.mem_namesExcept_iff.mpr
    ⟨signed, fun nothing => present (Headers.octets_eq_nil.mp nothing)⟩
  exact ⟨line, joined, (mem_headers_iff built).mpr ⟨listed, joined⟩⟩

end Canonical

namespace Draft

theorem intercalate_eq_first {first : String} {rest : List String} :
    String.intercalate "," (first :: rest) = first ↔ rest = [] := by
  constructor
  · intro same
    by_contra more
    have comma : ",".utf8ByteSize = 1 := rfl
    have size := congrArg String.utf8ByteSize same
    rw [String.intercalate_cons_of_ne_nil more, String.utf8ByteSize_append,
      String.utf8ByteSize_append, comma] at size
    omega
  · rintro rfl
    exact String.intercalate_singleton

/-- A line of several values is longer than the first of them. -/
theorem joinedText_cons {value : HeaderValue} {rest : List HeaderValue} {line : String}
    (joined : joinedText (value :: rest) = .ok line) :
    ∃ text, readValue value = .ok text ∧ (line = text ↔ rest = []) := by
  obtain ⟨texts, read, rfl⟩ := Success.map_ok.mp joined
  cases Success.mapM_ok.mp read with
  | cons spelled others =>
      refine ⟨_, spelled, intercalate_eq_first.trans ?_⟩
      rw [← List.length_eq_zero_iff, ← List.length_eq_zero_iff, others.length_eq]

end Draft

def Request.broughtHashes (request : Request) : List Bytes :=
  (request.headers.values .amzContentSha256).map fun value => HeaderValue.normal value.octets

namespace PayloadHash

def octets (hash : PayloadHash) : Bytes := Bytes.ofText hash.text

-- What stands for a payload that was not hashed is not as long as a digest is.
theorem hexHash_ne {hash : PayloadHash} (loud : hash.requiresHeader = true) (body : Bytes) :
    Sha256.hexHash body ≠ hash.text := by
  intro same
  have length := Event.length_hexHash body
  rw [same] at length
  cases hash with
  | digest text => contradiction
  | unsigned => exact absurd length (by decide)
  | streamingEvents => exact absurd length (by decide)

end PayloadHash

namespace PayloadStrategy

variable {draft : Draft} {body : Option Bytes} {hash : PayloadHash}

/-- A full hash is the first that was brought, or that of the body. -/
theorem octets_fullHash (hashed : fullHash draft body = .ok hash) :
    hash.requiresHeader = false ∧
      ((draft.headers.values .amzContentSha256).head?.map (·.octets) = some hash.octets ∨
        (draft.headers.values .amzContentSha256 = [] ∧
          ∃ octets ∈ body, hash.text = Sha256.hexHash octets)) := by
  rcases fullHash_cases hashed with ⟨value, rest, text, present, spelled, rfl⟩ |
    ⟨absent, octets, given, rfl⟩
  · refine ⟨rfl, Or.inl ?_⟩
    rw [present, List.head?_cons, Option.map_some, ← (Draft.readValue_ok spelled).1]
    rfl
  · exact ⟨rfl, Or.inr ⟨absent, octets, given, rfl⟩⟩

/-- No full hash stands for a payload that was not hashed, unless it was brought. -/
theorem sentinel_fullHash_iff {sentinel : PayloadHash} (loud : sentinel.requiresHeader = true)
    (hashed : fullHash draft body = .ok hash) :
    hash.text = sentinel.text ↔
      (draft.headers.values .amzContentSha256).head?.map (·.octets) = some sentinel.octets := by
  obtain ⟨_, brought | ⟨absent, octets, _, digest⟩⟩ := octets_fullHash hashed
  · rw [brought, Option.some.injEq]
    constructor
    · exact congrArg Bytes.ofText
    · exact Bytes.ofText_injective
  · rw [absent, digest]
    constructor
    · intro same
      exact absurd same (PayloadHash.hexHash_ne loud octets)
    · intro none
      contradiction

end PayloadStrategy

def Signer.announces (signer : Signer) (hash : PayloadHash) : Bool :=
  hash.requiresHeader || signer.checksumHeader

namespace Signer

variable {signer : Signer} {request : Request} {body : Option Bytes} {credential : Credential}
  {scope : Scope} {canonical : Canonical} {clock : Clock} {output : SigningOutput}

namespace Findings

variable {found : Findings} {authorized : HeaderValue}
  (of : found.Of signer request body credential)
include of

theorem octets_brought :
    (found.source.normalizeHeaders.headers.values .amzContentSha256).map (·.octets) =
      request.broughtHashes := by
  rw [Draft.normalizeHeaders, Headers.values_mapValues, headers_known of, List.map_map]
  rfl

/-- A full hash stands for a payload that was not hashed just if the request brings that first. -/
theorem sentinel_brought_iff {sentinel : PayloadHash} (loud : sentinel.requiresHeader = true)
    (hashed : PayloadStrategy.fullHash found.source.normalizeHeaders body = .ok found.hash) :
    found.hash.text = sentinel.text ↔ request.broughtHashes.head? = some sentinel.octets := by
  rw [PayloadStrategy.sentinel_fullHash_iff loud hashed, ← octets_brought of, List.head?_map]

theorem values_hash :
    (found.signed scope authorized).headers.values .amzContentSha256 =
      found.checksum.elim ((request.headers.values .amzContentSha256).map (·.normalize))
        ([·]) := by
  rw [values_sent of, if_neg (by decide), Fill.values_checksum]
  rfl

theorem announced (loud : signer.announces found.hash = true) :
    ∃ value, (found.signed scope authorized).headers.values .amzContentSha256 = [value] ∧
      value.octets = Bytes.ofText found.hash.text := by
  have held := (isSome_of_checksum of.checksum).trans loud
  obtain ⟨value, checksum⟩ := Option.isSome_iff_exists.mp held
  refine ⟨value, ?_, octets_of_checksum (checksum ▸ of.checksum)⟩
  rw [values_hash of, checksum]
  rfl

theorem unannounced (quiet : signer.announces found.hash = false) :
    (found.signed scope authorized).headers.values .amzContentSha256 =
      (request.headers.values .amzContentSha256).map (·.normalize) := by
  have missing := (isSome_of_checksum of.checksum).trans quiet
  rw [values_hash of, Option.isNone_iff_eq_none.mp (Option.isSome_eq_false_iff.mp missing)]
  rfl

variable {value : HeaderValue} {rest : List HeaderValue}
  (present : (found.signed scope authorized).headers.values .amzContentSha256 = value :: rest)
include present

/-- Where the signer keeps quiet, the first hash of the request is taken as it is. -/
theorem first_taken (quiet : signer.announces found.hash = false) :
    Draft.readValue value = .ok found.hash.text := by
  rw [unannounced of quiet, ← headers_known of, ← Headers.values_mapValues] at present
  rcases PayloadStrategy.resolve_cases of.hash with full | loud
  · rcases PayloadStrategy.fullHash_cases full with
      ⟨first, others, text, held, spelled, digest⟩ | ⟨absent, _⟩
    · obtain ⟨rfl, rfl⟩ := List.cons.inj (held.symm.trans present)
      rw [digest]
      exact spelled
    · exact absurd (present.symm.trans absent) (List.cons_ne_nil _ _)
  · rw [announces, loud, Bool.true_or] at quiet
    contradiction

/-- The line of the header is the hash that is signed, unless the request brings several hashes and
the signer announces none. -/
theorem line_eq_iff {line : String} (joined : Draft.joinedText (value :: rest) = .ok line) :
    line = found.hash.text ↔ signer.announces found.hash = true ∨
      (request.headers.values .amzContentSha256).length ≤ 1 := by
  obtain ⟨text, spelled, whole⟩ := Draft.joinedText_cons joined
  cases loud : signer.announces found.hash with
  | true =>
      obtain ⟨alone, held, octets⟩ : ∃ alone,
          (found.signed scope authorized).headers.values .amzContentSha256 = [alone] ∧
            alone.octets = Bytes.ofText found.hash.text := announced of loud
      obtain ⟨rfl, rfl⟩ := List.cons.inj (present.symm.trans held)
      have same : text = found.hash.text :=
        Bytes.ofText_injective ((Draft.readValue_ok spelled).1.trans octets)
      simp [whole.mpr rfl, same]
  | false =>
      have first := first_taken of present loud
      obtain rfl := Except.ok.inj (spelled.symm.trans first)
      have count := congrArg List.length (present.symm.trans (unannounced of loud))
      rw [List.length_cons, List.length_map] at count
      rw [whole, ← List.length_eq_zero_iff]
      simp only [Bool.false_eq_true, false_or]
      omega

end Findings

section Signed

variable {found : Findings} {authorized : HeaderValue}
  (of : found.Of signer request body credential)
  (built : Canonical.ofDraft (found.draft scope) found.hash = .ok canonical)
include of built

theorem line_of_found
    (present : (found.signed scope authorized).headers.values .amzContentSha256 ≠ []) :
    ∃ line, Draft.joinedText ((found.signed scope authorized).headers.values .amzContentSha256) =
        .ok line ∧
      (.amzContentSha256, line) ∈ canonical.headers ∧
      (line = found.hash.text ↔ signer.announces found.hash = true ∨
        (request.headers.values .amzContentSha256).length ≤ 1) := by
  obtain ⟨value, rest, held⟩ := List.exists_cons_of_ne_nil present
  have other : HeaderName.amzContentSha256 ≠ .authorization := by decide
  have carried : (found.draft scope).headers.values .amzContentSha256 = value :: rest :=
    (Findings.values_signed other).symm.trans held
  obtain ⟨line, joined, member⟩ :=
    Canonical.line_of_present built (by decide) (carried ▸ List.cons_ne_nil _ _)
  rw [Draft.headerJoined, carried] at joined
  exact ⟨line, held ▸ joined, member, Findings.line_eq_iff of held joined⟩

theorem sentinel_of_found (loud : found.hash.requiresHeader = true) :
    ∃ value, (found.signed scope authorized).headers.values .amzContentSha256 = [value] ∧
      value.octets = Bytes.ofText found.hash.text ∧
      (.amzContentSha256, found.hash.text) ∈ canonical.headers := by
  have announced : signer.announces found.hash = true := by rw [announces, loud, Bool.true_or]
  obtain ⟨value, alone, octets⟩ := Findings.announced of announced
  obtain ⟨line, _, member, same⟩ := line_of_found of built (alone ▸ List.cons_ne_nil _ _)
  exact ⟨value, alone, octets, same.mpr (Or.inl announced) ▸ member⟩

end Signed

/-- The hash that is announced is the one that is signed, just if the signer announces it or the
request brings no more than one of its own; what stands for a payload that was not hashed is always
announced. -/
theorem announced_hash_signed_iff (signing : Signing)
    (called : signer.sign request body credential .header clock = signing)
    (done : signing.result = .ok output) :
    ∃ canonical, signing.Covers credential output canonical ∧
      canonical.payloadHash = output.payloadHash.text ∧
      (signing.request.headers.values .amzContentSha256 ≠ [] →
        ∃ line, Draft.joinedText (signing.request.headers.values .amzContentSha256) = .ok line ∧
          (.amzContentSha256, line) ∈ canonical.headers ∧
          (line = canonical.payloadHash ↔ signer.announces output.payloadHash = true ∨
            (request.headers.values .amzContentSha256).length ≤ 1)) ∧
      (output.payloadHash.requiresHeader = true →
        ∃ value, signing.request.headers.values .amzContentSha256 = [value] ∧
          value.octets = Bytes.ofText canonical.payloadHash ∧
          (.amzContentSha256, canonical.payloadHash) ∈ canonical.headers) := by
  subst called
  obtain ⟨found, canonical, authorized, of, built, left, _, same, covered⟩ := found_of_done done
  have payload : canonical.payloadHash = found.hash.text := by
    obtain ⟨decoded, headers, _, _, rfl⟩ := Canonical.ofDraft_ok built
    rfl
  rw [left, same]
  refine ⟨canonical, covered, payload, ?line, ?sentinel⟩
  case line =>
    rw [payload]
    exact line_of_found of built
  case sentinel =>
    rw [payload]
    exact sentinel_of_found of built

theorem parcel_hash_announced_twice :
    ∃ output canonical, posted.result = .ok output ∧ posted.Covers guestKeys output canonical ∧
      canonical.payloadHash = output.payloadHash.text ∧
      ∃ line, Draft.joinedText (posted.request.headers.values .amzContentSha256) = .ok line ∧
        (.amzContentSha256, line) ∈ canonical.headers ∧ line ≠ canonical.payloadHash := by
  obtain ⟨output, done, _, payload, values⟩ := parcel_signed
  obtain ⟨canonical, covered, hash, line, _⟩ := announced_hash_signed_iff posted rfl done
  obtain ⟨line, joined, member, same⟩ := line (values ▸ List.cons_ne_nil _ _)
  refine ⟨output, canonical, done, covered, hash, line, joined, member, ?_⟩
  rw [ne_eq, same, payload]
  decide

/-- The parcel announces its two hashes in one line, and it is signed over the first of them. -/
theorem repeated_hash_not_signed :
    ∃ output canonical, posted.result = .ok output ∧ posted.Covers guestKeys output canonical ∧
      Draft.joinedText (posted.request.headers.values .amzContentSha256) = .ok "a,b" ∧
      (.amzContentSha256, "a,b") ∈ canonical.headers ∧ canonical.payloadHash = "a" ∧
      "a,b" ≠ canonical.payloadHash := by
  obtain ⟨output, done, covered, _, values⟩ := parcel_signed
  refine ⟨output, parcelCanonical, done, covered, ?joined, by decide, rfl, by decide⟩
  case joined =>
    rw [values]
    cbv

end Signer

end SigV4
