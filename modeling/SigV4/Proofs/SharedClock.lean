import Mathlib.Logic.Function.Basic
import SigV4.Proofs.FeedPolling
import SigV4.Proofs.InPlace
import SigV4.Proofs.Verification
/-!
Parties that share a clock. Requests are signed, sessions are driven by hand and feeds are asked for
their frames, in whatever order their turns come; the clock is all that they have in common. An
action takes at most one instant, and whether it takes one is up to what its own party holds. So an
interleaving is, for each party, a run of that party alone on a clock that hands out the instants
which the party drew.
-/
namespace SigV4

namespace Clock

def HandsOut : Clock → List Instant → Prop
  | _, [] => True
  | clock, time :: rest => clock.now = time ∧ clock.tick.HandsOut rest

theorem exists_handsOut (instants : List Instant) : ∃ clock : Clock, clock.HandsOut instants := by
  induction instants with
  | nil => exact ⟨⟨Instant.epoch, []⟩, trivial⟩
  | cons time rest ih =>
      obtain ⟨clock, handed⟩ := ih
      exact ⟨⟨time, clock.now :: clock.later⟩, rfl, handed⟩

def spent (clock : Clock) (drawn : Bool) : Clock := if drawn then clock.tick else clock

end Clock

/-- What a party holds: a request with what its last signing gave, a session, or the feed of a body
that is asked or polled. A finished session is gone. -/
inductive Party (ε : Type) where
  | requester (request : Request) (last : Option SigningOutput)
  | producer (session : Event.Session)
  | reader (body : Event.Body ε) (feed : Event.Feed)
  | poller (script : Nat → Event.Answer ε) (feed : Event.Feed)
  | gone

inductive Action (ε : Type) where
  | sign (signer : Signer) (body : Option Bytes) (credential : Credential) (placement : Placement)
  | openSession (credential : Credential)
  | call (call : Event.Call)
  | feed (body : Event.Body ε)
  | stream (script : Nat → Event.Answer ε)
  | pull

/-- What a party is given. An action that it cannot take gives nothing. -/
inductive Reply (ε : Type) where
  | signed (result : Except Fault SigningOutput)
  | opened (result : Except Fault Event.Session)
  | called (result : Except Fault Event.Emission)
  | yielded (yield : Option (Event.Yield ε))
  | nothing

structure Effect (ε : Type) where
  reply : Reply ε
  party : Party ε
  log : List Log.Record

namespace Event

def isFramed {ε : Type} : Option (Except ε Bytes) → Bool
  | some (.error _) => false
  | some (.ok _) | none => true

def Answer.isFramed {ε : Type} : Answer ε → Bool
  | .pending => false
  | .ready item => Event.isFramed item

end Event

namespace Party

variable {ε : Type}

def ofCall (call : Event.Call) (session : Event.Session) : Party ε :=
  match call with
  | .finish => .gone
  | .message _ | .frame _ | .event _ => .producer session

def act (party : Party ε) (action : Action ε) (clock : Clock) : Effect ε × Clock :=
  match party, action with
  | .requester request last, .sign signer body credential placement =>
      let signing := signer.sign request body credential placement clock
      (⟨.signed signing.result, .requester signing.request (signing.result.toOption <|> last),
        signing.log⟩, signing.clock)
  | .requester request (some output), .openSession credential =>
      match Signer.openSession credential output with
      | .ok session => (⟨.opened (.ok session), .producer session, []⟩, clock)
      | .error fault => (⟨.opened (.error fault), .requester request (some output), []⟩, clock)
  | .producer session, .call call =>
      let outcome := call.perform session clock
      (⟨.called outcome.result, ofCall call outcome.session, outcome.log⟩, outcome.clock)
  | .producer session, .feed body => (⟨.nothing, .reader body (.start session), []⟩, clock)
  | .producer session, .stream script => (⟨.nothing, .poller script (.start session), []⟩, clock)
  | .reader body feed, .pull =>
      let pulled := feed.pull body clock
      (⟨.yielded (some pulled.yield), .reader body pulled.feed, pulled.log⟩, pulled.clock)
  | .poller script feed, .pull =>
      let polled := feed.poll script clock
      (⟨.yielded polled.yield, .poller script polled.feed, polled.log⟩, polled.clock)
  | party, _ => (⟨.nothing, party, []⟩, clock)

/-- Whether an action draws an instant. Neither the clock nor another party has a say. -/
def draws (party : Party ε) (action : Action ε) : Bool :=
  match party, action with
  | .requester _ _, .sign signer _ credential placement => (signer.check credential placement).isOk
  | .producer _, .call call => call.payload?.isSome
  | .reader body feed, .pull => !feed.isClosed && Event.isFramed (body feed.asked)
  | .poller script feed, .pull => !feed.isClosed && (script feed.asked).isFramed
  | _, _ => false

def effects (party : Party ε) (clock : Clock) : List (Action ε) → List (Effect ε)
  | [] => []
  | action :: rest =>
      let (effect, later) := party.act action clock
      effect :: effect.party.effects later rest

def after (party : Party ε) (clock : Clock) : List (Action ε) → Party ε
  | [] => party
  | action :: rest =>
      let (effect, later) := party.act action clock
      effect.party.after later rest

end Party

structure Deed (ι ε : Type) where
  who : ι
  action : Action ε
  party : Party ε
  clock : Clock

namespace Deed

variable {ι ε : Type}

def effect (deed : Deed ι ε) : Effect ε := (deed.party.act deed.action deed.clock).1

def time? (deed : Deed ι ε) : Option Instant :=
  if deed.party.draws deed.action then some deed.clock.now else none

end Deed

namespace Interleaving

variable {ι ε : Type} [DecidableEq ι]

def deeds (parties : ι → Party ε) (clock : Clock) : List (ι × Action ε) → List (Deed ι ε)
  | [] => []
  | (who, action) :: rest =>
      let (effect, later) := (parties who).act action clock
      ⟨who, action, parties who, clock⟩ :: deeds (Function.update parties who effect.party) later rest

def after (parties : ι → Party ε) (clock : Clock) : List (ι × Action ε) → ι → Party ε
  | [] => parties
  | (who, action) :: rest =>
      let (effect, later) := (parties who).act action clock
      after (Function.update parties who effect.party) later rest

def actionsOf (who : ι) (schedule : List (ι × Action ε)) : List (Action ε) :=
  (schedule.filter (·.1 = who)).map (·.2)

def deedsOf (who : ι) (deeds : List (Deed ι ε)) : List (Deed ι ε) := deeds.filter (·.who = who)

def instantsOf (who : ι) (deeds : List (Deed ι ε)) : List Instant :=
  (deedsOf who deeds).filterMap (·.time?)

end Interleaving

-- An operation that may draw is described by one law: whatever it gives beside the clock is what it
-- gives on any other clock that shows the same instant, and the clock moves just if it is drawn from.

namespace Event

section Operations

variable {clock other : Clock}

theorem Session.signMessage_at (same : clock.now = other.now) (session : Session)
    (payload : Bytes) :
    session.signMessage payload clock =
      { session.signMessage payload other with clock := clock.tick } := by
  rw [session.signMessage_eq, session.signMessage_eq, same]

theorem Session.signFrame_at (same : clock.now = other.now) (session : Session) (payload : Bytes) :
    session.signFrame payload clock =
      { session.signFrame payload other with clock := clock.tick } := by
  simp only [Session.signFrame, Session.sign_eq, same]
  cases (session.signedMessage other.now payload).encode with
  | ok frame => rfl
  | error refused => rfl

theorem Call.perform_at (session : Session) (call : Call)
    (same : call.payload?.isSome = true → clock.now = other.now) :
    call.perform session clock =
      { call.perform session other with clock := clock.spent call.payload?.isSome } := by
  cases call with
  | message payload =>
      rw [perform, session.signMessage_at (same rfl) payload]
      rfl
  | frame payload =>
      rw [perform, session.signFrame_at (same rfl) payload]
      rfl
  | event event =>
      simp only [perform, Session.signEvent, payload?] at same ⊢
      cases encoded : event.encode with
      | ok payload =>
          rw [encoded] at same
          simp only [session.signFrame_at (same rfl) payload]
          rfl
      | error refused => rfl
  | finish =>
      rw [perform, Session.finish, session.signFrame_at (same rfl) []]
      rfl

variable {ε : Type}

theorem Feed.advance_at (session : Session) (asked : Nat) (item : Option (Except ε Bytes))
    (same : isFramed item = true → clock.now = other.now) :
    Feed.advance session asked item clock =
      { Feed.advance session asked item other with clock := clock.spent (isFramed item) } := by
  match item with
  | some (.ok payload) =>
      simp only [Feed.advance, session.signFrame_at (same rfl) payload]
      cases (session.signFrame payload other).result with
      | ok frame => rfl
      | error fault => rfl
  | some (.error error) => rfl
  | none =>
      simp only [Feed.advance, Session.finish, session.signFrame_at (same rfl) []]
      cases (session.signFrame [] other).result with
      | ok frame => rfl
      | error fault => rfl

theorem Feed.pull_at (body : Body ε) (feed : Feed)
    (same : (!feed.isClosed && isFramed (body feed.asked)) = true → clock.now = other.now) :
    feed.pull body clock =
      { feed.pull body other with
        clock := clock.spent (!feed.isClosed && isFramed (body feed.asked)) } := by
  obtain ⟨session, asked⟩ := feed
  cases session with
  | none => rfl
  | some session => exact Feed.advance_at session (asked + 1) (body asked) same

theorem Feed.poll_at (script : Nat → Answer ε) (feed : Feed)
    (same : (!feed.isClosed && (script feed.asked).isFramed) = true → clock.now = other.now) :
    feed.poll script clock =
      { feed.poll script other with
        clock := clock.spent (!feed.isClosed && (script feed.asked).isFramed) } := by
  obtain ⟨session, asked⟩ := feed
  cases session with
  | none => rfl
  | some session =>
      cases answered : script asked with
      | pending =>
          rw [Feed.poll_pending clock answered, Feed.poll_pending other answered]
          rfl
      | ready item =>
          simp only [answered] at same
          rw [Feed.poll_ready clock answered, Feed.poll_ready other answered,
            Feed.advance_at session (asked + 1) item same]
          rfl

end Operations

end Event

theorem Signer.sign_at {clock other : Clock} (signer : Signer) (request : Request)
    (body : Option Bytes) (credential : Credential) (placement : Placement)
    (same : (signer.check credential placement).isOk = true → clock.now = other.now) :
    signer.sign request body credential placement clock =
      { signer.sign request body credential placement other with
        clock := clock.spent (signer.check credential placement).isOk } := by
  cases checked : signer.check credential placement with
  | error fault =>
      rw [sign_refused checked, sign_refused checked]
      rfl
  | ok =>
      rw [checked] at same
      simp only [sign, checked, same rfl]
      rcases signer.signAt request body credential placement other.now with
        ⟨log, fault | ⟨signed, output⟩⟩
      · rfl
      · rfl

namespace Party

variable {ε : Type} {clock other : Clock}

theorem draws_event_iff (session : Event.Session) (event : Event.Message) :
    (producer session : Party ε).draws (.call (.event event)) = false ↔
      ∃ error, event.encode = .error error := by
  simp only [draws, Event.Call.payload?]
  cases event.encode with
  | ok payload => simp [Except.toOption]
  | error refused => simp [Except.toOption]

theorem draws_sign_iff (request : Request) (last : Option SigningOutput) (signer : Signer)
    (body : Option Bytes) (credential : Credential) (placement : Placement) :
    (requester request last : Party ε).draws (.sign signer body credential placement) = false ↔
      signer.Refuses credential placement := by
  rw [← Signer.check_error_iff, draws]
  cases signer.check credential placement with
  | ok => simp [Except.isOk, Except.toBool]
  | error fault => simp [Except.isOk, Except.toBool]

theorem draws_closed {feed : Event.Feed} (closed : feed.isClosed = true) (body : Event.Body ε)
    (script : Nat → Event.Answer ε) :
    (reader body feed).draws .pull = false ∧ (poller script feed).draws .pull = false := by
  simp [draws, closed]

/-- An action reads nothing of the clock but the instant that it draws. -/
theorem act_at (party : Party ε) (action : Action ε)
    (same : party.draws action = true → clock.now = other.now) :
    party.act action clock =
      ((party.act action other).1, clock.spent (party.draws action)) := by
  cases party with
  | requester request last =>
      cases action with
      | sign signer body credential placement =>
          simp only [act, signer.sign_at request body credential placement same]
          rfl
      | openSession credential =>
          cases last with
          | none => rfl
          | some output =>
              simp only [act]
              cases Signer.openSession credential output with
              | ok session => rfl
              | error fault => rfl
      | _ => rfl
  | producer session =>
      cases action with
      | call call =>
          simp only [act, call.perform_at session same]
          rfl
      | _ => rfl
  | reader body feed =>
      cases action with
      | pull =>
          simp only [act, feed.pull_at body same]
          rfl
      | _ => rfl
  | poller script feed =>
      cases action with
      | pull =>
          simp only [act, feed.poll_at script same]
          rfl
      | _ => rfl
  | gone => rfl

theorem clock_act (party : Party ε) (action : Action ε) (clock : Clock) :
    (party.act action clock).2 = clock.spent (party.draws action) :=
  congrArg Prod.snd (party.act_at action fun _ => rfl)

theorem effects_cons (party : Party ε) (clock : Clock) (action : Action ε)
    (rest : List (Action ε)) :
    party.effects clock (action :: rest) =
      (party.act action clock).1 ::
        (party.act action clock).1.party.effects (clock.spent (party.draws action)) rest := by
  rw [← clock_act]
  rfl

theorem after_cons (party : Party ε) (clock : Clock) (action : Action ε)
    (rest : List (Action ε)) :
    party.after clock (action :: rest) =
      (party.act action clock).1.party.after (clock.spent (party.draws action)) rest := by
  rw [← clock_act]
  rfl

end Party

theorem Clock.HandsOut.of_drawn {clock alone : Clock} {drawn : Bool} {rest : List Instant}
    (handed : alone.HandsOut ((if drawn then some clock.now else none).toList ++ rest)) :
    (drawn = true → alone.now = clock.now) ∧ (alone.spent drawn).HandsOut rest := by
  cases drawn with
  | false => exact ⟨fun never => absurd never Bool.false_ne_true, handed⟩
  | true => exact ⟨fun _ => handed.1, handed.2⟩

namespace Interleaving

variable {ι ε : Type} [DecidableEq ι] {who other : ι}

theorem deeds_cons (parties : ι → Party ε) (clock : Clock) (who : ι) (action : Action ε)
    (rest : List (ι × Action ε)) :
    deeds parties clock ((who, action) :: rest) =
      ⟨who, action, parties who, clock⟩ ::
        deeds (Function.update parties who ((parties who).act action clock).1.party)
          (clock.spent ((parties who).draws action)) rest := by
  rw [← Party.clock_act]
  rfl

theorem after_cons (parties : ι → Party ε) (clock : Clock) (who : ι) (action : Action ε)
    (rest : List (ι × Action ε)) :
    after parties clock ((who, action) :: rest) =
      after (Function.update parties who ((parties who).act action clock).1.party)
        (clock.spent ((parties who).draws action)) rest := by
  rw [← Party.clock_act]
  rfl

theorem actionsOf_own (action : Action ε) (rest : List (ι × Action ε)) :
    actionsOf who ((who, action) :: rest) = action :: actionsOf who rest := by
  simp [actionsOf]

theorem actionsOf_other (different : other ≠ who) (action : Action ε)
    (rest : List (ι × Action ε)) :
    actionsOf who ((other, action) :: rest) = actionsOf who rest := by
  simp [actionsOf, different]

theorem deedsOf_own {deed : Deed ι ε} (own : deed.who = who) (rest : List (Deed ι ε)) :
    deedsOf who (deed :: rest) = deed :: deedsOf who rest := by
  simp [deedsOf, own]

theorem deedsOf_other {deed : Deed ι ε} (different : deed.who ≠ who) (rest : List (Deed ι ε)) :
    deedsOf who (deed :: rest) = deedsOf who rest := by
  simp [deedsOf, different]

theorem instantsOf_own {deed : Deed ι ε} (own : deed.who = who) (rest : List (Deed ι ε)) :
    instantsOf who (deed :: rest) = deed.time?.toList ++ instantsOf who rest := by
  rw [instantsOf, deedsOf_own own, List.filterMap_cons, instantsOf]
  cases deed.time? with
  | none => rfl
  | some time => rfl

-- Induction on the schedule: a turn of the party itself moves the clock of its own by the instant
-- that it draws, and the turn of another changes neither that clock nor what the party holds.
theorem effects_of_deeds (parties : ι → Party ε) (clock : Clock) (schedule : List (ι × Action ε))
    (who : ι) {alone : Clock}
    (handed : alone.HandsOut (instantsOf who (deeds parties clock schedule))) :
    (deedsOf who (deeds parties clock schedule)).map (·.effect) =
        (parties who).effects alone (actionsOf who schedule) ∧
      after parties clock schedule who = (parties who).after alone (actionsOf who schedule) := by
  induction schedule generalizing parties clock alone with
  | nil => exact ⟨rfl, rfl⟩
  | cons turn rest ih =>
      obtain ⟨actor, action⟩ := turn
      rw [deeds_cons] at handed ⊢
      rw [after_cons]
      by_cases own : actor = who
      · subst own
        have mine : (⟨actor, action, parties actor, clock⟩ : Deed ι ε).who = actor := rfl
        rw [instantsOf_own mine] at handed
        obtain ⟨shown, later⟩ := handed.of_drawn
        obtain ⟨effects, left⟩ := ih _ _ later
        have same : ((parties actor).act action alone).1 = ((parties actor).act action clock).1 := by
          rw [(parties actor).act_at action shown]
        rw [Function.update_self] at effects left
        rw [actionsOf_own, deedsOf_own mine, List.map_cons, effects, left, Party.effects_cons,
          Party.after_cons, same]
        exact ⟨rfl, rfl⟩
      · have different : (⟨actor, action, parties actor, clock⟩ : Deed ι ε).who ≠ who := own
        rw [instantsOf, deedsOf_other different, ← instantsOf] at handed
        obtain ⟨effects, left⟩ := ih _ _ handed
        rw [Function.update_of_ne (Ne.symm own)] at effects left
        rw [actionsOf_other own, deedsOf_other different]
        exact ⟨effects, left⟩

/-- Whoever else draws from the clock, a party is given what it is given alone on a clock that hands
out the instants which it drew, and comes to hold the same: its signatures are those of a run of its
own. Whether an action draws is settled by its own party; an event without an encoding, a closed feed
and a refused signing draw nothing. -/
theorem parties_stay_independent (parties : ι → Party ε) (clock : Clock)
    (schedule : List (ι × Action ε)) (who : ι) :
    (∃ alone : Clock, alone.HandsOut (instantsOf who (deeds parties clock schedule))) ∧
    (∀ alone : Clock, alone.HandsOut (instantsOf who (deeds parties clock schedule)) →
      (deedsOf who (deeds parties clock schedule)).map (·.effect) =
          (parties who).effects alone (actionsOf who schedule) ∧
        after parties clock schedule who = (parties who).after alone (actionsOf who schedule)) ∧
    (∀ (party : Party ε) (action : Action ε) (clock : Clock),
      (party.act action clock).2 = clock.spent (party.draws action)) ∧
    (∀ (session : Event.Session) (event : Event.Message),
      (Party.producer session : Party ε).draws (.call (.event event)) = false ↔
        ∃ error, event.encode = .error error) ∧
    (∀ feed : Event.Feed, feed.isClosed = true → ∀ (body : Event.Body ε)
      (script : Nat → Event.Answer ε),
      (Party.reader body feed).draws .pull = false ∧
        (Party.poller script feed).draws .pull = false) ∧
    ∀ (request : Request) (last : Option SigningOutput) (signer : Signer) (body : Option Bytes)
      (credential : Credential) (placement : Placement),
      (Party.requester request last : Party ε).draws (.sign signer body credential placement) =
          false ↔ signer.Refuses credential placement := by
  refine ⟨Clock.exists_handsOut _, ?effects, Party.clock_act, Party.draws_event_iff, ?closed,
    Party.draws_sign_iff⟩
  case effects => exact fun alone handed => effects_of_deeds parties clock schedule who handed
  case closed => exact fun feed closed => Party.draws_closed closed

-- Two sessions and a request that is refused: between the two frames of the first session the clock
-- moves by the frame of the second.
def minute (count : Fin 3) : Instant where
  seconds := 60 * count.val
  nanos := 0
  nanos_lt := Instant.epoch.nanos_lt
  leap_at_end := by omega
  not_before := by omega
  not_after := by omega

def threeMinutes : Clock := ⟨minute 0, [minute 1, minute 2]⟩

def threeParties : Fin 3 → Party String
  | 0 => .producer ⟨⟨"key", "secret", none⟩, "us-east-1", "transcribe", "seed"⟩
  | 1 => .producer ⟨⟨"other", "hidden", none⟩, "eu-west-1", "transcribe", "kernel"⟩
  | 2 => .requester (Signer.listing "list" rfl .empty) none

def threeTurns : List (Fin 3 × Action String) :=
  [(0, .call (.frame [97])),
   (2, .sign Signer.lister (some []) ⟨"", "", none⟩ .header),
   (1, .call (.frame [98])),
   (0, .call .finish)]

theorem producer_stays_independent :
    let alone : Clock := ⟨minute 0, [minute 2]⟩
    alone.HandsOut (instantsOf 0 (deeds threeParties threeMinutes threeTurns)) ∧
      (deedsOf 0 (deeds threeParties threeMinutes threeTurns)).map (·.effect) =
        (threeParties 0).effects alone [.call (.frame [97]), .call .finish] := by
  intro alone
  have drawn : instantsOf 0 (deeds threeParties threeMinutes threeTurns) = [minute 0, minute 2] := by
    simp only [threeTurns, deeds_cons]
    rfl
  have handed : alone.HandsOut (instantsOf 0 (deeds threeParties threeMinutes threeTurns)) := by
    rw [drawn]
    exact ⟨rfl, rfl, trivial⟩
  obtain ⟨_, independent, _⟩ := parties_stay_independent threeParties threeMinutes threeTurns 0
  exact ⟨handed, (independent alone handed).1⟩

end Interleaving

end SigV4
