import Mathlib.Data.Nat.Nth
import SigV4.Proofs.FeedCourse
/-!
Feeds of a body that may not be ready. A poll that finds the body pending takes nothing but the
question, so the ready results are those of a blocking feed whose body has no pending answers. A
feed is terminated by the poll that gives the trailer or an error, and stays so.
-/
namespace SigV4.Event

variable {ε : Type} {script : Nat → Answer ε} {body : Body ε}

def Answer.isReady : Answer ε → Bool
  | .pending => false
  | .ready _ => true

def readyBefore (script : Nat → Answer ε) (index : Nat) : Nat :=
  Nat.count (fun earlier => (script earlier).isReady = true) index

/-- The body gives the items of the script in their order, without the pending answers between
them. -/
def WithoutPending (script : Nat → Answer ε) (body : Body ε) : Prop :=
  ∀ index item, script index = .ready item → body (readyBefore script index) = item

/-- Every script has such a body, be it ready again and again or pending for ever. -/
theorem exists_withoutPending (script : Nat → Answer ε) : ∃ body, WithoutPending script body := by
  let position := Nat.nth fun index => (script index).isReady = true
  refine ⟨fun index => match script (position index) with
    | .ready item => item
    | .pending => none, ?_⟩
  intro index item answered
  have ready : (script index).isReady = true := by rw [answered, Answer.isReady]
  have found : position (readyBefore script index) = index := Nat.nth_count ready
  simp only [found, answered]

theorem readyBefore_pending {index : Nat} (answered : script index = .pending) :
    readyBefore script (index + 1) = readyBefore script index := by
  have notReady : ¬ (script index).isReady = true := by simp [answered, Answer.isReady]
  rw [readyBefore, Nat.count_succ, if_neg notReady]
  rfl

theorem readyBefore_ready {index : Nat} {item : Option (Except ε Bytes)}
    (answered : script index = .ready item) :
    readyBefore script (index + 1) = readyBefore script index + 1 := by
  have ready : (script index).isReady = true := by rw [answered, Answer.isReady]
  rw [readyBefore, Nat.count_succ, if_pos ready]
  rfl

inductive Turn.Ends (script : Nat → Answer ε) (turn : Turn (Option (Yield ε))) : Prop where
  | trailer {octets : Bytes} (ended : script turn.feed.asked = .ready none)
      (given : turn.given.yield = some (.frame octets))
  | bodyFailed {error : ε} (given : turn.given.yield = some (.bodyFailed error))
  | signingFailed {fault : Fault} (given : turn.given.yield = some (.signingFailed fault))

structure Turn.Polled (script : Nat → Answer ε) (turn : Turn (Option (Yield ε))) : Prop where
  pending : turn.given.yield = none ↔
    turn.feed.isClosed = false ∧ script turn.feed.asked = .pending
  untouched : turn.given.yield = none →
    turn.given.feed.session = turn.feed.session ∧ turn.given.clock = turn.clock
  terminates : turn.feed.isClosed = false →
    (turn.given.feed.isClosed = true ↔ turn.Ends script)

namespace Feed

theorem poll_closed (script : Nat → Answer ε) {feed : Feed} (clock : Clock)
    (closed : feed.isClosed = true) :
    poll script feed clock = ⟨some .ended, feed, clock, []⟩ := by
  unfold poll
  rw [Option.isNone_iff_eq_none.mp closed]

theorem poll_pending {session : Session} {index : Nat} (clock : Clock)
    (answered : script index = .pending) :
    poll script ⟨some session, index⟩ clock = ⟨none, ⟨some session, index + 1⟩, clock, []⟩ := by
  simp only [poll, answered]

theorem poll_ready {session : Session} {index : Nat} {item : Option (Except ε Bytes)}
    (clock : Clock) (answered : script index = .ready item) :
    poll script ⟨some session, index⟩ clock =
      let pulled := advance session (index + 1) item clock
      ⟨some pulled.yield, pulled.feed, pulled.clock, pulled.log⟩ := by
  simp only [poll, answered]

/-- Nothing but the count of questions depends on how many there were. -/
theorem advance_uniform (session : Session) (item : Option (Except ε Bytes)) (clock : Clock) :
    ∃ yield state later log, ∀ asked,
      advance session asked item clock = ⟨yield, ⟨state, asked⟩, later, log⟩ := by
  match item with
  | some (.ok buffer) =>
      cases signed : (session.signFrame buffer clock).result with
      | ok frame => exact ⟨_, _, _, _, fun asked => by simp only [advance, signed]; rfl⟩
      | error fault => exact ⟨_, _, _, _, fun asked => by simp only [advance, signed]; rfl⟩
  | some (.error error) => exact ⟨_, _, _, _, fun asked => rfl⟩
  | none =>
      cases signed : (session.finish clock).result with
      | ok frame => exact ⟨_, _, _, _, fun asked => by simp only [advance, signed]; rfl⟩
      | error fault => exact ⟨_, _, _, _, fun asked => by simp only [advance, signed]; rfl⟩

-- A pending poll moves the polled feed alone; a ready one moves both by the same answer. Between
-- the two, the blocking feed has put as many questions as the script had ready answers.
theorem answers_of_polls (removed : WithoutPending script body) (state : Option Session)
    (index : Nat) (clock : Clock) (count : Nat) :
    let answers := (turns (poll script) ⟨state, index⟩ clock count).filterMap (·.given.yield)
    answers = (turns (pull body) ⟨state, readyBefore script index⟩ clock answers.length).map
      (·.given.yield) := by
  induction count generalizing state index clock with
  | zero => rfl
  | succ count ih =>
      cases state with
      | none =>
          have pulled : ∀ asked count, turns (pull body) ⟨none, asked⟩ clock count = _ :=
            fun asked => turns_closed (pull_closed body clock rfl)
          rw [turns_closed (poll_closed script clock rfl)]
          simp [pulled]
      | some session =>
          cases answered : script index with
          | pending =>
              have rest := ih (some session) (index + 1) clock
              rw [readyBefore_pending answered] at rest
              simpa [turns, poll_pending clock answered] using rest
          | ready item =>
              obtain ⟨yield, next, later, log, uniform⟩ := advance_uniform session item clock
              have rest := ih next (index + 1) later
              rw [readyBefore_ready answered] at rest
              simp only [turns, poll_ready clock answered, uniform, List.filterMap_cons,
                List.length_cons, List.map_cons, pull_open, removed index item answered]
              exact congrArg (yield :: ·) rest

theorem poll_polled (script : Nat → Answer ε) (feed : Feed) (clock : Clock) :
    Turn.Polled script ⟨feed, clock, poll script feed clock⟩ := by
  obtain ⟨session, asked⟩ := feed
  cases session with
  | none =>
      rw [poll_closed script clock rfl]
      constructor
      case pending => simp [isClosed]
      case untouched => exact fun missing => nomatch missing
      case terminates => exact fun opened => nomatch opened
  | some session =>
      cases answered : script asked with
      | pending =>
          rw [poll_pending clock answered]
          constructor
          case pending => simp [isClosed, answered]
          case untouched => exact fun _ => ⟨rfl, rfl⟩
          case terminates =>
            intro _
            constructor
            · exact fun closed => nomatch closed
            · rintro (⟨_, given⟩ | given | given) <;> exact nomatch given
      | ready item =>
          rw [poll_ready clock answered]
          constructor
          case pending => simp [answered]
          case untouched => exact fun missing => nomatch missing
          case terminates =>
            intro _
            rcases advance_cases session (asked + 1) item clock with
              ⟨buffer, frame, next, log, rfl, _, done⟩ | ⟨last, later, log, closing, _, done⟩
            · rw [done]
              constructor
              · exact fun closed => nomatch closed
              · rintro (⟨ended, _⟩ | given | given)
                · exact nomatch answered.symm.trans ended
                · exact nomatch given
                · exact nomatch given
            · rw [done]
              refine iff_of_true rfl ?_
              cases closing with
              | ended => exact .trailer answered rfl
              | bodyFailed => exact .bodyFailed rfl
              | signingFailed => exact .signingFailed rfl

/-- A polled feed gives, poll by poll that is ready, what the blocking feed gives on the same
answers; a pending poll leaves session and clock as they are, and the poll that ends the session is
followed by nothing. -/
theorem polls_refine_pulls (script : Nat → Answer ε) (body : Body ε)
    (removed : WithoutPending script body) (session : Session) (clock : Clock) (count : Nat) :
    let polls := turns (poll script) (start session) clock count
    let answers := polls.filterMap (·.given.yield)
    answers = (turns (pull body) (start session) clock answers.length).map (·.given.yield) ∧
      (∀ turn ∈ polls, turn.Polled script) ∧
      polls.Pairwise fun earlier later =>
        earlier.given.feed.isClosed = true →
          later.given = ⟨some .ended, earlier.given.feed, earlier.given.clock, []⟩ := by
  intro polls answers
  refine ⟨?answers, ?polled, ?rests⟩
  case answers => exact answers_of_polls removed (some session) 0 clock count
  case polled => exact forall_turns (poll_polled script) (start session) clock count
  case rests => exact turns_rest (fun _ => poll_closed script) (start session) clock count

def hesitant : Nat → Answer String
  | 1 => .ready (some (.ok [97]))
  | 3 => .ready none
  | _ => .pending

def prompt : Body String
  | 0 => some (.ok [97])
  | _ => none

theorem polls_refine_pulls_hesitant :
    let session : Session := ⟨⟨"key", "secret", none⟩, "us-east-1", "transcribe", "seed"⟩
    let clock : Clock := ⟨Instant.epoch, []⟩
    let polls := turns (poll hesitant) (start session) clock 5
    let answers := polls.filterMap (·.given.yield)
    WithoutPending hesitant prompt ∧
      answers = (turns (pull prompt) (start session) clock answers.length).map (·.given.yield) ∧
      (∀ turn ∈ polls, turn.Polled hesitant) ∧
      polls.Pairwise fun earlier later =>
        earlier.given.feed.isClosed = true →
          later.given = ⟨some .ended, earlier.given.feed, earlier.given.clock, []⟩ := by
  intro session clock polls answers
  have removed : WithoutPending hesitant prompt := by
    intro index item answered
    match index with
    | 1 => exact (Answer.ready.inj answered : some (.ok [97]) = item)
    | 3 => exact (Answer.ready.inj answered : none = item)
    | 0 | 2 | _ + 4 => exact nomatch answered
  exact ⟨removed, polls_refine_pulls hesitant prompt removed session clock 5⟩

end Feed

end SigV4.Event
