import SigV4.Proofs.SignedFrame
/-!
Runs of a session, and the chain that their frames form. A run is any sequence of calls, each made
with the session and the clock that the one before it left; nothing is assumed of the calls, so
some of them may fail. What succeeded is chained signature by signature, and what failed has left
the session as it was.
-/
namespace SigV4.Event

/-- The calls on a session. After `finish` a session takes no more of them; what is proved of runs
does not depend on that. -/
inductive Call where
  | message (payload : Bytes)
  | frame (payload : Bytes)
  | event (event : Message)
  | finish

inductive Emission where
  | message (message : Message)
  | frame (octets : Bytes)

def Emission.read? : Emission → Option Message
  | .message given => some given
  | .frame octets => Message.read octets

def Outcome.map {α β : Type} (change : α → β) (outcome : Outcome α) : Outcome β :=
  ⟨outcome.result.map change, outcome.session, outcome.clock, outcome.log⟩

namespace Call

def payload? : Call → Option Bytes
  | .message payload | .frame payload => some payload
  | .event source => source.encode.toOption
  | .finish => some []

def perform (call : Call) (session : Session) (clock : Clock) : Outcome Emission :=
  match call with
  | .message payload => (session.signMessage payload clock).map .message
  | .frame payload => (session.signFrame payload clock).map .frame
  | .event source => (session.signEvent source clock).map .frame
  | .finish => (session.finish clock).map .frame

/-- A call that succeeded: its emission reads as the signed message, the session goes on from the
signature and one instant is spent. -/
def Signs (call : Call) (session : Session) (clock : Clock) : Prop :=
  ∃ payload signature emission, call.payload? = some payload ∧
    signature = session.frameSignature clock.now payload ∧
    emission.read? = some ⟨[dateHeader clock.now, signatureHeader signature], payload⟩ ∧
    call.perform session clock =
      ⟨.ok emission, session.withPrior (Hex.encode signature), clock.tick,
        session.signedLog clock.now payload⟩

/-- A payload for which no frame is long enough: the instant is spent and the session kept. -/
def Overflows (call : Call) (session : Session) (clock : Clock) : Prop :=
  ∃ payload error, call.payload? = some payload ∧
    maxFrameLength < payload.length + signedOverhead ∧
    call.perform session clock =
      ⟨.error (.frameUnencodable error), session, clock.tick,
        session.signedLog clock.now payload⟩

/-- An event that has no encoding: nothing is spent. -/
def Refuses (call : Call) (session : Session) (clock : Clock) : Prop :=
  ∃ error, call.payload? = none ∧
    call.perform session clock = ⟨.error (.eventUnencodable error), session, clock, []⟩

theorem frame_cases (session : Session) (clock : Clock) (call : Call) (payload : Bytes)
    (signed : call.payload? = some payload)
    (performed : call.perform session clock = (session.signFrame payload clock).map .frame) :
    call.Signs session clock ∨ call.Overflows session clock := by
  rcases session.signFrame_cases payload clock with ⟨octets, read, done⟩ | ⟨long, error, done⟩
  · rw [done] at performed
    exact Or.inl ⟨payload, _, .frame octets, signed, rfl, read, performed⟩
  · rw [done] at performed
    exact Or.inr ⟨payload, error, signed, long, performed⟩

theorem perform_message (session : Session) (clock : Clock) (payload : Bytes) :
    (Call.message payload).perform session clock =
      ⟨.ok (.message (session.signedMessage clock.now payload)),
        session.advanced clock.now payload, clock.tick,
        session.signedLog clock.now payload⟩ := by
  rw [perform, session.signMessage_eq]
  rfl

/-- All that a call can do. -/
theorem perform_cases (call : Call) (session : Session) (clock : Clock) :
    call.Signs session clock ∨ call.Overflows session clock ∨ call.Refuses session clock := by
  cases call with
  | message payload =>
      left
      exact ⟨payload, _, .message (session.signedMessage clock.now payload), rfl, rfl, rfl,
        perform_message session clock payload⟩
  | frame payload =>
      rcases frame_cases session clock (.frame payload) payload rfl rfl with signs | overflows
      · exact Or.inl signs
      · exact Or.inr (Or.inl overflows)
  | event event =>
      cases encoded : event.encode with
      | ok payload =>
          have signed : (Call.event event).payload? = some payload := by
            rw [payload?, encoded]
            rfl
          have performed : (Call.event event).perform session clock =
              (session.signFrame payload clock).map .frame := by
            simp only [perform, Session.signEvent, encoded]
          rcases frame_cases session clock (.event event) payload signed performed with
            signs | overflows
          · exact Or.inl signs
          · exact Or.inr (Or.inl overflows)
      | error refused =>
          right; right
          refine ⟨refused, ?_, ?_⟩
          · rw [payload?, encoded]
            rfl
          · simp only [perform, Session.signEvent, encoded]
            rfl
  | finish =>
      rcases frame_cases session clock .finish [] rfl rfl with signs | overflows
      · exact Or.inl signs
      · exact Or.inr (Or.inl overflows)

end Call

structure Step where
  call : Call
  session : Session
  clock : Clock

def Step.outcome (step : Step) : Outcome Emission := step.call.perform step.session step.clock

def Step.time (step : Step) : Instant := step.clock.now

structure Link where
  step : Step
  emission : Emission

def Step.link? (step : Step) : Option Link :=
  match step.outcome.result with
  | .ok emission => some ⟨step, emission⟩
  | .error _ => none

namespace Session

def steps (session : Session) (clock : Clock) : List Call → List Step
  | [] => []
  | call :: rest =>
      let outcome := call.perform session clock
      ⟨call, session, clock⟩ :: outcome.session.steps outcome.clock rest

def after (session : Session) (clock : Clock) : List Call → Session
  | [] => session
  | call :: rest =>
      let outcome := call.perform session clock
      outcome.session.after outcome.clock rest

def links (session : Session) (clock : Clock) (calls : List Call) : List Link :=
  (session.steps clock calls).filterMap (·.link?)

end Session

/-- How a link follows from the signature before it, with which the session was found. What was
given carries two headers, the date of the instant and the raw signature, and the octets that were
to be signed; `next` is that signature in hexadecimal, and is the one calculated from `prior` in
the scope of that instant. -/
def Link.Follows (credential : Credential) (region service prior : String) (link : Link)
    (next : String) : Prop :=
  link.step.session = ⟨credential, region, service, prior⟩ ∧
  ∃ payload signature block,
    link.step.call.payload? = some payload ∧
    link.emission.read? = some
      ⟨[⟨":date", .timestamp (.ofMillis link.step.time.millis)⟩,
        ⟨":chunk-signature", .bytes signature⟩], payload⟩ ∧
    signature.length = 32 ∧ next = Hex.encode signature ∧
    encodeHeaders [⟨":date", .timestamp (.ofMillis link.step.time.millis)⟩] = .ok block ∧
    next = Signature.hex
      (Signature.key credential.secretAccessKey ⟨region, service, link.step.time⟩)
      (Signature.stringToSign "AWS4-HMAC-SHA256-PAYLOAD" ⟨region, service, link.step.time⟩
        [prior, Sha256.hexHash block, Sha256.hexHash payload])

inductive Chain (credential : Credential) (region service : String) :
    String → List Link → String → Prop where
  | start (prior : String) : Chain credential region service prior [] prior
  | next {prior between last : String} {link : Link} {rest : List Link}
      (follows : link.Follows credential region service prior between)
      (chained : Chain credential region service between rest last) :
      Chain credential region service prior (link :: rest) last

theorem signed_follows {call : Call} {session : Session} {clock : Clock}
    {payload signature : Bytes} {emission : Emission} (signed : call.payload? = some payload)
    (calculated : signature = session.frameSignature clock.now payload)
    (read : emission.read? = some ⟨[dateHeader clock.now, signatureHeader signature], payload⟩) :
    Link.Follows session.credential session.region session.service session.prior
      ⟨⟨call, session, clock⟩, emission⟩ (Hex.encode signature) := by
  refine ⟨rfl, payload, signature, dateBlock clock.now, signed, read, ?_, rfl,
    encode_dateHeaders clock.now, ?_⟩
  · rw [calculated, session.length_frameSignature]
  · rw [calculated]
    rfl

/-- What one call leaves of a step: the clock moves by at most one instant, and only for a call
that succeeds does the session move. -/
structure Step.Sound (step : Step) : Prop where
  drawn : ∀ emission, step.outcome.result = .ok emission → step.outcome.clock = step.clock.tick
  kept : ∀ fault, step.outcome.result = .error fault → step.outcome.session = step.session
  given : ∀ payload, step.call.payload? = some payload →
    payload.length + signedOverhead ≤ maxFrameLength →
      ∃ emission, step.outcome.result = .ok emission

theorem step_sound (step : Step) : step.Sound := by
  rcases step.call.perform_cases step.session step.clock with
    ⟨payload, signature, emission, signed, _, _, done⟩ | ⟨payload, error, signed, long, done⟩ |
      ⟨error, unsigned, done⟩
  · have outcome : step.outcome = _ := done
    constructor
    · intro emission given
      rw [outcome]
    · intro fault failed
      rw [outcome] at failed
      contradiction
    · intro payload signed short
      exact ⟨emission, by rw [outcome]⟩
  · have outcome : step.outcome = _ := done
    constructor
    · intro emission given
      rw [outcome]
    · intro fault failed
      rw [outcome]
    · intro other same short
      cases signed.symm.trans same
      exact absurd long (Nat.not_lt.mpr short)
  · have outcome : step.outcome = _ := done
    constructor
    · intro emission given
      rw [outcome] at given
      contradiction
    · intro fault failed
      rw [outcome]
    · intro payload signed
      rw [unsigned] at signed
      contradiction

theorem links_of_ok {call : Call} {session next : Session} {clock later : Clock}
    {emission : Emission} {log : List Log.Record} (rest : List Call)
    (performed : call.perform session clock = ⟨.ok emission, next, later, log⟩) :
    session.links clock (call :: rest) =
        ⟨⟨call, session, clock⟩, emission⟩ :: next.links later rest ∧
      session.after clock (call :: rest) = next.after later rest := by
  simp [Session.links, Session.steps, Session.after, Step.link?, Step.outcome, performed]

theorem links_of_error {call : Call} {session next : Session} {clock later : Clock} {fault : Fault}
    {log : List Log.Record} (rest : List Call)
    (performed : call.perform session clock = ⟨.error fault, next, later, log⟩) :
    session.links clock (call :: rest) = next.links later rest ∧
      session.after clock (call :: rest) = next.after later rest := by
  simp [Session.links, Session.steps, Session.after, Step.link?, Step.outcome, performed]

-- Induction on the calls: a call that succeeds adds one link from the signature before it, and any
-- other leaves the session for the calls that follow.
theorem chain_of_run (session : Session) (clock : Clock) (calls : List Call) :
    Chain session.credential session.region session.service session.prior
      (session.links clock calls) (session.after clock calls).prior := by
  induction calls generalizing session clock with
  | nil => exact .start session.prior
  | cons call rest ih =>
      rcases call.perform_cases session clock with
        ⟨payload, signature, emission, signed, calculated, read, done⟩ |
          ⟨payload, error, _, _, done⟩ | ⟨error, _, done⟩
      · obtain ⟨links, last⟩ := links_of_ok rest done
        rw [links, last]
        exact .next (signed_follows signed calculated read)
          (ih (session.withPrior (Hex.encode signature)) clock.tick)
      · obtain ⟨links, last⟩ := links_of_error rest done
        rw [links, last]
        exact ih session clock.tick
      · obtain ⟨links, last⟩ := links_of_error rest done
        rw [links, last]
        exact ih session clock

/-- What a run gives is one chain from the seed to the signature that the session holds at the end.
A call that fails gives nothing and leaves the session where it was. -/
theorem run_chained (credential : Credential) (region service seed : String) (clock : Clock)
    (calls : List Call) :
    Chain credential region service seed
        (Session.links ⟨credential, region, service, seed⟩ clock calls)
        (Session.after ⟨credential, region, service, seed⟩ clock calls).prior ∧
      ∀ step ∈ Session.steps ⟨credential, region, service, seed⟩ clock calls, step.Sound :=
  ⟨chain_of_run ⟨credential, region, service, seed⟩ clock calls, fun step _ => step_sound step⟩

end SigV4.Event
