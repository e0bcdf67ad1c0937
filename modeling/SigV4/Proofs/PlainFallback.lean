import SigV4.Proofs.PlainTransport
import SigV4.Proofs.SigningCondition
/-!
Falling back to the full hash. Over a transport that is not encrypted the strategy that spares the
payload takes the hash that the full strategy takes, and signs what that one signs. Only the words
of a refusal are its own: it has one fault for all that can go wrong, which blames a payload that is
not at hand. That is true of it unless the request carries a hash that cannot be read.
-/
namespace SigV4

namespace Fault

def BlamesPayload : Fault → Prop
  | .payloadUnavailable | .unsignedOverPlain _ => True
  | _ => False

end Fault

namespace Draft

def Lacks (draft : Draft) (body : Option Bytes) : Prop :=
  draft.headers.values .amzContentSha256 = [] ∧ body = none

def Garbled (draft : Draft) : Prop :=
  ∃ value rest, draft.headers.values .amzContentSha256 = value :: rest ∧
    ¬ Bytes.IsReadable value.octets

/-- The strategy that spares the payload does what the full one does, and tells no less of what
went wrong. -/
structure FallsBack (draft : Draft) (body : Option Bytes) : Prop where
  hash : ∀ hash, PayloadStrategy.unsignedOverTls.resolve draft body = .ok hash ↔
    PayloadStrategy.full.resolve draft body = .ok hash
  kind : ∀ spared whole, PayloadStrategy.unsignedOverTls.resolve draft body = .error spared →
    PayloadStrategy.full.resolve draft body = .error whole → spared.kind = whole.kind
  blame : ∀ strategy ∈ [PayloadStrategy.unsignedOverTls, PayloadStrategy.full], ∀ fault,
    strategy.resolve draft body = .error fault → fault.BlamesPayload → draft.Lacks body

theorem Garbled.not_lacks {draft : Draft} {body : Option Bytes} (garbled : draft.Garbled) :
    ¬ draft.Lacks body := by
  obtain ⟨value, rest, present, _⟩ := garbled
  rintro ⟨absent, _⟩
  rw [present] at absent
  contradiction

theorem readValue_error {value : HeaderValue} {fault : Fault} :
    readValue value = .error fault ↔
      ¬ Bytes.IsReadable value.octets ∧ fault = .headerValueUnreadable := by
  rw [← readValue_iff, readValue]
  cases value.readable? with
  | none => simp [eq_comm]
  | some text => simp

end Draft

namespace PayloadStrategy

variable {draft : Draft} {body : Option Bytes}

/-- All that can go wrong with a full hash: there is nothing to hash, or the hash at hand cannot be
read. -/
theorem fullHash_error {fault : Fault} :
    fullHash draft body = .error fault ↔
      draft.Lacks body ∧ fault = .payloadUnavailable ∨
        draft.Garbled ∧ fault = .headerValueUnreadable := by
  unfold Draft.Lacks Draft.Garbled
  cases values : draft.headers.values .amzContentSha256 with
  | nil =>
      rw [fullHash_absent values]
      cases body with
      | none => simp [eq_comm]
      | some octets => simp
  | cons value rest =>
      rw [fullHash_present values, Success.map_error, Draft.readValue_error]
      simp

theorem resolve_plain (plain : draft.scheme ≠ .https) :
    resolve .unsignedOverTls draft body =
      (fullHash draft body).mapError fun _ => .unsignedOverPlain draft.scheme :=
  if_neg fun encrypted => plain (of_decide_eq_true encrypted)

/-- The strategy that spares the payload has one fault for all that goes wrong over a plain
transport. -/
theorem spared_error (plain : draft.scheme ≠ .https) {fault : Fault} :
    resolve .unsignedOverTls draft body = .error fault ↔
      (draft.Lacks body ∨ draft.Garbled) ∧ fault = .unsignedOverPlain draft.scheme := by
  rw [resolve_plain plain, Success.mapError_error]
  constructor
  · rintro ⟨refused, failed, rfl⟩
    exact ⟨(fullHash_error.mp failed).imp And.left And.left, rfl⟩
  · rintro ⟨lacks | garbled, rfl⟩
    · exact ⟨_, fullHash_error.mpr (Or.inl ⟨lacks, rfl⟩), rfl⟩
    · exact ⟨_, fullHash_error.mpr (Or.inr ⟨garbled, rfl⟩), rfl⟩

theorem spared_ok (plain : draft.scheme ≠ .https) {hash : PayloadHash} :
    resolve .unsignedOverTls draft body = .ok hash ↔ resolve .full draft body = .ok hash := by
  rw [resolve_plain plain, Success.mapError_ok]
  rfl

/-- Over a plain transport both strategies are resolved alike, or each refuses in its own words. -/
theorem resolve_either (plain : draft.scheme ≠ .https) (body : Option Bytes) :
    resolve .unsignedOverTls draft body = resolve .full draft body ∨
      ∃ whole, (whole = .payloadUnavailable ∨ whole = .headerValueUnreadable) ∧
        resolve .full draft body = .error whole ∧
        resolve .unsignedOverTls draft body = .error (.unsignedOverPlain draft.scheme) := by
  cases hashed : resolve .full draft body with
  | ok hash => exact Or.inl ((spared_ok plain).mpr hashed)
  | error whole =>
      refine Or.inr ⟨whole, ?cause, rfl, ?spared⟩
      case cause => exact (fullHash_error.mp hashed).imp And.right And.right
      case spared =>
        rw [resolve_plain plain]
        exact Success.mapError_error.mpr ⟨whole, hashed, rfl⟩

/-- The fallback is told apart from the full strategy just by a hash that cannot be read. -/
theorem fallsBack_iff (plain : draft.scheme ≠ .https) :
    draft.FallsBack body ↔ ¬ draft.Garbled := by
  constructor
  · intro falls garbled
    have refused : resolve .unsignedOverTls draft body = .error (.unsignedOverPlain draft.scheme) :=
      (spared_error plain).mpr ⟨.inr garbled, rfl⟩
    have lacks := falls.blame .unsignedOverTls List.mem_cons_self _ refused trivial
    exact garbled.not_lacks lacks
  · intro readable
    have lacking : ∀ {fault}, resolve .full draft body = .error fault →
        draft.Lacks body ∧ fault = .payloadUnavailable := by
      intro fault refused
      exact (fullHash_error.mp refused).resolve_right fun both => readable both.1
    have spared : ∀ {fault}, resolve .unsignedOverTls draft body = .error fault →
        draft.Lacks body ∧ fault = .unsignedOverPlain draft.scheme := by
      intro fault refused
      obtain ⟨cause, same⟩ := (spared_error plain).mp refused
      exact ⟨cause.resolve_right readable, same⟩
    refine ⟨fun hash => spared_ok plain, ?kind, ?blame⟩
    case kind =>
      intro sparedFault wholeFault sparing whole
      rw [(spared sparing).2, (lacking whole).2]
      rfl
    case blame =>
      intro strategy either fault refused _
      rcases List.mem_pair.mp either with rfl | rfl
      · exact (spared refused).1
      · exact (lacking refused).1

end PayloadStrategy

namespace Signer

variable {signer : Signer} {request : Request} {body : Option Bytes} {credential : Credential}
  {clock : Clock}

def following (signer : Signer) (strategy : PayloadStrategy) : Signer := { signer with strategy }

@[simp]
theorem scope_following (signer : Signer) (strategy : PayloadStrategy) (time : Instant) :
    (signer.following strategy).scope time = signer.scope time :=
  rfl

theorem check_following (signer : Signer) (strategy : PayloadStrategy) (credential : Credential) :
    (signer.following strategy).check credential .header = signer.check credential .header :=
  rfl

theorem checksumValue_following (signer : Signer) (strategy : PayloadStrategy)
    (hash : PayloadHash) :
    (signer.following strategy).checksumValue hash = signer.checksumValue hash :=
  rfl

/-- Of what is prepared only the hash depends on the strategy. It is all the same whether it is
taken at once or as a fallback, unless it cannot be taken. -/
theorem prepare_following (plain : request.uri.scheme ≠ some .https) (signer : Signer)
    (body : Option Bytes) (credential : Credential) (scope : Scope) :
    (signer.following .unsignedOverTls).prepare request body credential .header scope =
        (signer.following .full).prepare request body credential .header scope ∨
      ∃ whole, (whole = .payloadUnavailable ∨ whole = .headerValueUnreadable) ∧
        (signer.following .full).prepare request body credential .header scope = .error whole ∧
        (signer.following .unsignedOverTls).prepare request body credential .header scope =
          .error (.unsignedOverPlain (request.uri.scheme.getD .http)) := by
  simp only [prepare_header_eq, checksumValue_following]
  cases taken : Draft.ofRequest request with
  | error fault => exact Or.inl rfl
  | ok source =>
      cases credential.tokenValue with
      | error fault => exact Or.inl rfl
      | ok token =>
          have exposed : source.normalizeHeaders.scheme ≠ .https := fun encrypted =>
            plain ((PayloadStrategy.encrypted_iff taken).mp (decide_eq_true encrypted))
          have scheme : source.normalizeHeaders.scheme = request.uri.scheme.getD .http := by
            obtain ⟨authority, _, rfl⟩ := Draft.ofRequest_iff.mp taken
            rfl
          rcases PayloadStrategy.resolve_either exposed body with
            same | ⟨whole, cause, hashed, spared⟩
          · left
            simp only [following, bind, Except.bind, same]
          · right
            refine ⟨whole, cause, ?_, ?_⟩
            · simp only [following, bind, Except.bind, hashed]
            · simp only [following, bind, Except.bind, spared, scheme]

/-- A draft that cannot be prepared is the end of a signing, and nothing but the scope is logged. -/
theorem sign_unprepared {placement : Placement} {fault : Fault}
    (allowed : signer.check credential placement = .ok ())
    (failed : signer.prepare request body credential placement (signer.scope clock.now) =
      .error fault) :
    signer.sign request body credential placement clock =
      ⟨.error fault, request, clock.tick,
        [.debug ("calculated scope: " ++ (signer.scope clock.now).text)]⟩ := by
  simp only [sign, allowed, signAt, failed, bind, Except.bind]

/-- Signing with the fallback is signing with the full strategy, down to the log, the clock and the
request that is left; else both fail on the payload, and each in its own words. -/
theorem sign_following (plain : request.uri.scheme ≠ some .https) :
    (signer.following .unsignedOverTls).sign request body credential .header clock =
        (signer.following .full).sign request body credential .header clock ∨
      ∃ whole log, (whole = .payloadUnavailable ∨ whole = .headerValueUnreadable) ∧
        (signer.following .full).sign request body credential .header clock =
          ⟨.error whole, request, clock.tick, log⟩ ∧
        (signer.following .unsignedOverTls).sign request body credential .header clock =
          ⟨.error (.unsignedOverPlain (request.uri.scheme.getD .http)), request, clock.tick,
            log⟩ := by
  cases allowed : signer.check credential .header with
  | error fault =>
      left
      simp only [sign, check_following, allowed]
  | ok =>
      rcases prepare_following plain signer body credential (signer.scope clock.now) with
        same | ⟨whole, cause, hashed, spared⟩
      · left
        simp only [sign, check_following, allowed, signAt, scope_following, same]
      · right
        exact ⟨whole, _, cause, sign_unprepared allowed hashed, sign_unprepared allowed spared⟩

/-- Over a scheme that is not encrypted both strategies take the same hash or none, and sign the same
requests alike. They refuse a draft alike, and blame a payload that is not at hand only if it is not,
just unless the draft carries a hash that cannot be read. -/
theorem plain_fallback_iff_readable (draft : Draft) (body : Option Bytes)
    (plain : draft.scheme ≠ .https) :
    (∀ hash, PayloadStrategy.unsignedOverTls.resolve draft body = .ok hash ↔
      PayloadStrategy.full.resolve draft body = .ok hash) ∧
    (∀ fault, PayloadStrategy.full.resolve draft body = .error fault ↔
      draft.Lacks body ∧ fault = .payloadUnavailable ∨
        draft.Garbled ∧ fault = .headerValueUnreadable) ∧
    (∀ fault, PayloadStrategy.unsignedOverTls.resolve draft body = .error fault ↔
      (draft.Lacks body ∨ draft.Garbled) ∧ fault = .unsignedOverPlain draft.scheme) ∧
    (draft.FallsBack body ↔ ¬ draft.Garbled) ∧
    ∀ (signer : Signer) (request : Request) (credential : Credential) (clock : Clock),
      request.uri.scheme.getD .http = draft.scheme →
      (signer.following .unsignedOverTls).sign request body credential .header clock =
          (signer.following .full).sign request body credential .header clock ∨
        ∃ whole log, (whole = .payloadUnavailable ∨ whole = .headerValueUnreadable) ∧
          (signer.following .full).sign request body credential .header clock =
            ⟨.error whole, request, clock.tick, log⟩ ∧
          (signer.following .unsignedOverTls).sign request body credential .header clock =
            ⟨.error (.unsignedOverPlain draft.scheme), request, clock.tick, log⟩ := by
  refine ⟨fun _ => PayloadStrategy.spared_ok plain, fun _ => PayloadStrategy.fullHash_error,
    fun _ => PayloadStrategy.spared_error plain, PayloadStrategy.fallsBack_iff plain, ?signs⟩
  intro signer request credential clock scheme
  have exposed : request.uri.scheme ≠ some .https := by
    intro encrypted
    rw [encrypted] at scheme
    exact plain scheme.symm
  rw [← scheme]
  exact sign_following exposed

-- The same errand is signed once by a signer that spares the payload, and once by one that hashes
-- it in full.
theorem redirected_falls_back :
    (errandSource .http leftHeaders).FallsBack letter ∧
      ∃ output, redirected.result = .ok output ∧
        (opportunist.following .full).sign (errand .http leftHeaders) letter listerKeys .header
          ⟨Instant.epoch, []⟩ = redirected := by
  obtain ⟨_, _, _, falls, signs⟩ :=
    plain_fallback_iff_readable (errandSource .http leftHeaders) letter (by decide)
  constructor
  · apply falls.mpr
    rintro ⟨value, rest, present, garbled⟩
    have brought : (errandSource .http leftHeaders).headers.values .amzContentSha256 =
        [unsignedHeader.2] := by decide +kernel
    rw [brought] at present
    obtain ⟨rfl, _⟩ := List.cons.inj present
    exact garbled (by unfold Bytes.IsReadable; decide +kernel)
  · obtain ⟨output, _, done, _⟩ := redirected_signed
    refine ⟨output, done, ?_⟩
    rcases signs opportunist (errand .http leftHeaders) listerKeys ⟨Instant.epoch, []⟩ rfl with
      same | ⟨whole, log, _, _, failed⟩
    · exact same.symm
    · have refused : redirected = _ := failed
      rw [refused] at done
      contradiction

def garbledSource : Draft :=
  errandSource .http ⟨[(.amzContentSha256, ⟨[0xff], false, by decide⟩)]⟩

/-- The payload is at hand, and so is a hash, which cannot be read: the full strategy says so, and
the fallback blames the payload. -/
theorem garbled_hash_blames_payload :
    PayloadStrategy.full.resolve garbledSource letter = .error .headerValueUnreadable ∧
      PayloadStrategy.unsignedOverTls.resolve garbledSource letter =
        .error (.unsignedOverPlain .http) ∧
      Fault.kind .headerValueUnreadable ≠ Fault.kind (.unsignedOverPlain .http) ∧
      ¬ garbledSource.Lacks letter ∧ ¬ garbledSource.FallsBack letter := by
  have whole : PayloadStrategy.full.resolve garbledSource letter =
      .error .headerValueUnreadable := by decide +kernel
  have spared : PayloadStrategy.unsignedOverTls.resolve garbledSource letter =
      .error (.unsignedOverPlain .http) := by decide +kernel
  have kinds : Fault.kind .headerValueUnreadable ≠ Fault.kind (.unsignedOverPlain .http) := by
    decide
  have brought : ¬ garbledSource.Lacks letter := by
    rintro ⟨_, missing⟩
    exact absurd missing (by decide)
  refine ⟨whole, spared, kinds, brought, ?_⟩
  intro falls
  exact kinds (falls.kind _ _ spared whole).symm

end Signer

end SigV4
