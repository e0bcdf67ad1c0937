import SigV4.Proofs.AnnouncedHash
import SigV4.Proofs.SignedNames
/-!
From a request to the session of its frames. A session opens on the output of a signing whose
strategy leaves the payload to frames, and on no other, though what stands for such a payload may
be signed under any strategy when the request brings it. What opens goes on from the signature in
the authorization, in the scope of the request.
-/
namespace SigV4

structure Event.Session.Continues (session : Session) (holder : Credential)
    (output : SigningOutput) : Prop where
  credential : session.credential = holder
  region : session.region = output.scope.region
  service : session.service = output.scope.service
  prior : session.prior = output.signature
  first : ∀ clock calls link rest, session.links clock calls = link :: rest →
    ∃ next, link.Follows holder output.scope.region output.scope.service output.signature next

namespace Event

theorem Chain.first_follows {credential : Credential} {region service prior last : String}
    {link : Link} {rest : List Link}
    (chained : Chain credential region service prior (link :: rest) last) :
    ∃ next, link.Follows credential region service prior next := by
  cases chained with
  | next follows _ => exact ⟨_, follows⟩

end Event

namespace PayloadStrategy

variable {strategy : PayloadStrategy} {draft : Draft} {body : Option Bytes} {hash : PayloadHash}

/-- One strategy leaves a payload to its frames. -/
theorem streaming_iff (resolved : strategy.resolve draft body = .ok hash) :
    hash = .streamingEvents ↔ strategy = .streaming := by
  constructor
  · rintro rfl
    cases strategy with
    | full => exact absurd (octets_fullHash resolved).1 (by decide)
    | unsignedOverTls =>
        simp only [resolve] at resolved
        split at resolved
        · cases resolved
        · exact absurd (octets_fullHash (Success.mapError_ok.mp resolved)).1 (by decide)
    | streaming => rfl
  · rintro rfl
    exact (Except.ok.inj resolved).symm

end PayloadStrategy

namespace Signer

variable {signer : Signer} {request : Request} {body : Option Bytes}
  {credential holder : Credential} {clock : Clock} {output : SigningOutput}
  {session : Event.Session}

/-- When a session opens, and what it is. -/
theorem openSession_iff : openSession holder output = .ok session ↔
    output.payloadHash = .streamingEvents ∧ holder.isValid = true ∧
      session = ⟨holder, output.scope.region, output.scope.service, output.signature⟩ := by
  unfold openSession
  by_cases streaming : output.payloadHash = .streamingEvents
  · cases valid : holder.isValid with
    | false => simp [streaming]
    | true => simp [streaming, eq_comm]
  · simp [streaming]

theorem exists_openSession : (∃ session, openSession holder output = .ok session) ↔
    output.payloadHash = .streamingEvents ∧ holder.isValid = true := by
  simp only [openSession_iff, exists_and_left, exists_eq, and_true]

theorem continues_of_opened (opened : openSession holder output = .ok session) :
    session.Continues holder output := by
  obtain ⟨_, _, rfl⟩ := openSession_iff.mp opened
  refine ⟨rfl, rfl, rfl, rfl, ?first⟩
  case first =>
    intro clock calls link rest ran
    have chained := Event.chain_of_run
      ⟨holder, output.scope.region, output.scope.service, output.signature⟩ clock calls
    rw [ran] at chained
    exact chained.first_follows

-- Under any other strategy the hash is full or stands for an unsigned payload, so what stands for
-- frames can only be one that was brought.
theorem Findings.streaming_line {found : Findings}
    (of : found.Of signer request body credential)
    (line : found.hash.text = PayloadHash.streamingEvents.text) :
    signer.strategy = .streaming ∨
      request.broughtHashes.head? = some PayloadHash.streamingEvents.octets := by
  rcases PayloadStrategy.resolve_cases of.hash with full | loud
  · exact Or.inr ((found.sentinel_brought_iff of rfl full).mp line)
  · left
    rw [← PayloadStrategy.streaming_iff of.hash]
    cases hash : found.hash with
    | digest text => simp [hash, PayloadHash.requiresHeader] at loud
    | unsigned =>
        rw [hash] at line
        exact absurd line (by decide)
    | streamingEvents => rfl

/-- The output of a signing opens a session just if its strategy leaves the payload to frames. What
stands for them is signed then, and otherwise only where the request brings it. A session goes on
from the signature in the authorization. -/
theorem session_opens_iff_streaming (signing : Signing)
    (called : signer.sign request body credential .header clock = signing)
    (done : signing.result = .ok output) :
    ∃ canonical, signing.Covers credential output canonical ∧
      signing.Authorized credential output ∧
      canonical.payloadHash = output.payloadHash.text ∧
      (signer.strategy = .streaming →
        canonical.payloadHash = PayloadHash.streamingEvents.text) ∧
      (canonical.payloadHash = PayloadHash.streamingEvents.text →
        signer.strategy = .streaming ∨
          request.broughtHashes.head? = some PayloadHash.streamingEvents.octets) ∧
      ∀ holder : Credential, holder.isValid = true →
        ((∃ session, openSession holder output = .ok session) ↔ signer.strategy = .streaming) ∧
          ∀ session, openSession holder output = .ok session →
            session.Continues holder output := by
  subst called
  obtain ⟨draft, hash, canonical, _, built, placed, signedHeaders, rfl, covered⟩ :=
    course_of_done done
  obtain ⟨found, _, _, of, _, _, _, same, _⟩ := found_of_done done
  have payload : canonical.payloadHash = output.payloadHash.text :=
    Canonical.payloadHash_ofDraft built
  have streaming : output.payloadHash = .streamingEvents ↔ signer.strategy = .streaming := by
    rw [same]
    exact PayloadStrategy.streaming_iff of.hash
  refine ⟨canonical, covered, authorized_of_placed placed signedHeaders covered, payload, ?left,
    ?line, ?session⟩
  case left =>
    intro strategy
    rw [payload, streaming.mpr strategy]
  case line =>
    rw [payload, same]
    exact found.streaming_line of
  case session =>
    intro holder valid
    constructor
    · rw [exists_openSession, streaming]
      exact and_iff_left valid
    · exact fun session opened => continues_of_opened opened

-- Two errands are sent with the same headers: one by a signer of streams, and one that brings what
-- stands for a stream to a signer of whole payloads.
def streamer : Signer := ⟨"transcribe", "us-east-1", .streaming, false⟩

def wholeSigner : Signer := { streamer with strategy := .full, checksumHeader := true }

def streamingHeader : HeaderName × HeaderValue :=
  parcelHeader .amzContentSha256 "STREAMING-AWS4-HMAC-SHA256-EVENTS" false rfl

def streamHeaders : Headers :=
  ⟨[(.host, listingDraft.authority.hostValue), (.amzDate, parcelScope.dateValue), streamingHeader]⟩

def streamLines : List (HeaderName × String) :=
  [(.host, "bucket.test"), (.amzContentSha256, "STREAMING-AWS4-HMAC-SHA256-EVENTS"),
    (.amzDate, "19700101T000000Z")]

def streamed : Signing :=
  streamer.sign (errand .https .empty) none listerKeys .header ⟨Instant.epoch, []⟩

def preset : Signing :=
  wholeSigner.sign (errand .https ⟨[streamingHeader]⟩) none listerKeys .header ⟨Instant.epoch, []⟩

theorem ofDraft_stream (hash : PayloadHash) :
    Canonical.ofDraft (errandSource .https streamHeaders) hash =
      .ok (errandCanonical streamLines hash) := by
  refine ofDraft_errand ?names ?joined
  case names =>
    exact Headers.namesExcept_eq (by decide +kernel) (by decide +kernel) (by decide +kernel)
  case joined => cbv

theorem streamed_signed : ∃ output authorized, streamed.result = .ok output ∧
    output.payloadHash = .streamingEvents ∧
    streamed.request = errand .https (streamHeaders.insert .authorization authorized) ∧
    streamed.Covers listerKeys output (errandCanonical streamLines .streamingEvents) := by
  have of : (errandFound .https .empty .streamingEvents none (some streamingHeader.2)).Of streamer
      (errand .https .empty) none listerKeys := errand_found rfl rfl rfl rfl
  exact errand_signed of (by decide +kernel) (ofDraft_stream _) (by decide)

/-- The errand of the stream opens a session, and its first frame follows from its signature. -/
theorem streamed_opens : ∃ output session, streamed.result = .ok output ∧
    openSession listerKeys output = .ok session ∧ session.Continues listerKeys output ∧
    streamed.Authorized listerKeys output := by
  obtain ⟨output, _, done, _⟩ := streamed_signed
  obtain ⟨_, _, authorized, _, _, _, opens⟩ := session_opens_iff_streaming streamed rfl done
  obtain ⟨eligible, continues⟩ := opens listerKeys rfl
  obtain ⟨session, opened⟩ := eligible.mpr rfl
  exact ⟨output, session, done, opened, continues session opened, authorized⟩

/-- What stands for a stream is signed for the errand that brings it, and no session opens. -/
theorem preset_opens_no_session :
    ∃ output canonical, preset.result = .ok output ∧ preset.Covers listerKeys output canonical ∧
      canonical.payloadHash = "STREAMING-AWS4-HMAC-SHA256-EVENTS" ∧ listerKeys.isValid = true ∧
      ∀ session, openSession listerKeys output ≠ .ok session := by
  have hashed : wholeSigner.strategy.resolve
      (errandSource .https ⟨[streamingHeader]⟩).normalizeHeaders none =
        .ok (.digest "STREAMING-AWS4-HMAC-SHA256-EVENTS") := by cbv
  have of : (errandFound .https ⟨[streamingHeader]⟩ (.digest "STREAMING-AWS4-HMAC-SHA256-EVENTS")
      none (some streamingHeader.2)).Of wholeSigner (errand .https ⟨[streamingHeader]⟩) none
      listerKeys := errand_found rfl rfl hashed rfl
  obtain ⟨output, _, done, payload, _, covered⟩ : ∃ output authorized,
      preset.result = .ok output ∧
      output.payloadHash = .digest "STREAMING-AWS4-HMAC-SHA256-EVENTS" ∧
      preset.request = errand .https (streamHeaders.insert .authorization authorized) ∧
      preset.Covers listerKeys output (errandCanonical streamLines
        (.digest "STREAMING-AWS4-HMAC-SHA256-EVENTS")) :=
    errand_signed of (by decide +kernel) (ofDraft_stream _) (by decide)
  refine ⟨output, _, done, covered, rfl, rfl, fun session opened => ?_⟩
  obtain ⟨streaming, _⟩ := openSession_iff.mp opened
  rw [payload] at streaming
  contradiction

end Signer

end SigV4
