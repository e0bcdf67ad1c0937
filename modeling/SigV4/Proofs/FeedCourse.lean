import SigV4.Event.Feed
import SigV4.Proofs.FrameChain
/-!
The course of a feed that is asked again and again. It gives what its session gives by hand: a
frame for each buffer that the body answers with, then one thing more for the answer that closes
it, then nothing. An open feed puts one question to its body each time, a closed one none.
-/
namespace SigV4.Event

variable {ε α : Type}

structure Turn (α : Type) where
  feed : Feed
  clock : Clock
  given : Pulled α

def Session.results (session : Session) (clock : Clock) (calls : List Call) :
    List (Except Fault Emission) :=
  (session.steps clock calls).map (·.outcome.result)

def framed (frames : List Bytes) : List (Except Fault Emission) :=
  frames.map fun octets => .ok (.frame octets)

def Reads (body : Body ε) (buffers : List Bytes) : Prop :=
  ∀ (index : Nat) (buffer : Bytes), buffers[index]? = some buffer → body index = some (.ok buffer)

/-- The answer that closes a session once some buffers are signed, and what is given for it. -/
inductive Closing (session : Session) (clock : Clock) (buffers frames : List Bytes) :
    Option (Except ε Bytes) → Yield ε → Prop where
  | ended {trailer : Bytes}
      (signed : session.results clock (buffers.map .frame ++ [.finish]) =
        framed (frames ++ [trailer])) :
      Closing session clock buffers frames none (.frame trailer)
  | bodyFailed (error : ε)
      (signed : session.results clock (buffers.map .frame) = framed frames) :
      Closing session clock buffers frames (some (.error error)) (.bodyFailed error)
  | signingFailed {buffer : Bytes} {fault : Fault}
      (signed : session.results clock (buffers.map .frame ++ [.frame buffer]) =
        framed frames ++ [.error fault]) :
      Closing session clock buffers frames (some (.ok buffer)) (.signingFailed fault)

/-- What a session by hand makes of the answers of a body, when it is asked `count` times. -/
inductive Course (body : Body ε) (session : Session) (clock : Clock) (count : Nat) :
    List (Yield ε) → Prop where
  | going {buffers frames : List Bytes} (read : Reads body buffers)
      (signed : session.results clock (buffers.map .frame) = framed frames)
      (all : buffers.length = count) :
      Course body session clock count (frames.map .frame)
  | closed {buffers frames : List Bytes} {last : Yield ε} (read : Reads body buffers)
      (closing : Closing session clock buffers frames (body buffers.length) last)
      (before : buffers.length < count) :
      Course body session clock count
        (frames.map .frame ++ last :: List.replicate (count - (buffers.length + 1)) .ended)

namespace Feed

def turns (ask : Feed → Clock → Pulled α) (feed : Feed) (clock : Clock) : Nat → List (Turn α)
  | 0 => []
  | count + 1 =>
      let given := ask feed clock
      ⟨feed, clock, given⟩ :: turns ask given.feed given.clock count

theorem turns_closed {ask : Feed → Clock → Pulled α} {idle : α} {feed : Feed} {clock : Clock}
    (rests : ask feed clock = ⟨idle, feed, clock, []⟩) (count : Nat) :
    turns ask feed clock count =
      List.replicate count ⟨feed, clock, ⟨idle, feed, clock, []⟩⟩ := by
  induction count with
  | zero => rfl
  | succ count ih =>
      simp only [turns, rests]
      rw [ih, List.replicate_succ]

/-- A feed that does nothing once it is closed does nothing ever after. -/
theorem turns_rest {ask : Feed → Clock → Pulled α} {idle : α}
    (rests : ∀ feed clock, feed.isClosed = true → ask feed clock = ⟨idle, feed, clock, []⟩)
    (feed : Feed) (clock : Clock) (count : Nat) :
    (turns ask feed clock count).Pairwise fun earlier later =>
      earlier.given.feed.isClosed = true →
        later.given = ⟨idle, earlier.given.feed, earlier.given.clock, []⟩ := by
  induction count generalizing feed clock with
  | zero => exact List.Pairwise.nil
  | succ count ih =>
      refine List.Pairwise.cons ?_ (ih _ _)
      intro later member closed
      rw [turns_closed (rests _ _ closed)] at member
      rw [List.eq_of_mem_replicate member]

theorem forall_turns {ask : Feed → Clock → Pulled α} {holds : Turn α → Prop}
    (step : ∀ feed clock, holds ⟨feed, clock, ask feed clock⟩) (feed : Feed) (clock : Clock)
    (count : Nat) : ∀ turn ∈ turns ask feed clock count, holds turn := by
  induction count generalizing feed clock with
  | zero => exact fun _ member => absurd member List.not_mem_nil
  | succ count ih =>
      intro turn member
      rcases List.mem_cons.mp member with rfl | later
      · exact step feed clock
      · exact ih _ _ turn later

/-- All that an open feed can do with an answer of its body: give a frame and go on, or give
something else and close. -/
theorem advance_cases (session : Session) (asked : Nat) (item : Option (Except ε Bytes))
    (clock : Clock) :
    (∃ buffer frame next log, item = some (.ok buffer) ∧
      (Call.frame buffer).perform session clock = ⟨.ok (.frame frame), next, clock.tick, log⟩ ∧
      advance session asked item clock = ⟨.frame frame, ⟨some next, asked⟩, clock.tick, log⟩) ∨
    (∃ last later log, Closing session clock [] [] item last ∧
      (later = clock ∨ later = clock.tick) ∧
      advance session asked item clock = ⟨last, ⟨none, asked⟩, later, log⟩) := by
  match item with
  | some (.ok buffer) =>
      rcases session.signFrame_cases buffer clock with ⟨frame, _, done⟩ | ⟨_, error, done⟩
      · left
        refine ⟨buffer, frame, session.advanced clock.now buffer,
          session.signedLog clock.now buffer, rfl, ?_, ?_⟩
        · exact congrArg (Outcome.map Emission.frame) done
        · simp only [advance, done]
      · right
        have result : session.results clock [.frame buffer] =
            [.error (.frameUnencodable error)] :=
          congrArg (fun outcome => [(Outcome.map Emission.frame outcome).result]) done
        refine ⟨_, clock.tick, session.signedLog clock.now buffer, .signingFailed result,
          Or.inr rfl, ?_⟩
        simp only [advance, done]
  | some (.error error) =>
      right
      exact ⟨_, clock, [], .bodyFailed error rfl, Or.inl rfl, rfl⟩
  | none =>
      right
      rcases session.signFrame_cases [] clock with ⟨trailer, _, done⟩ | ⟨long, _, _⟩
      · have result : session.results clock [.finish] = [.ok (.frame trailer)] :=
          congrArg (fun outcome => [(Outcome.map Emission.frame outcome).result]) done
        refine ⟨_, clock.tick, session.signedLog clock.now [], .ended result, Or.inr rfl, ?_⟩
        simp only [advance, Session.finish, done]
      · exact absurd long (by decide)

theorem pull_open (body : Body ε) (session : Session) (asked : Nat) (clock : Clock) :
    pull body ⟨some session, asked⟩ clock = advance session (asked + 1) (body asked) clock :=
  rfl

theorem pull_closed (body : Body ε) {feed : Feed} (clock : Clock) (closed : feed.isClosed = true) :
    pull body feed clock = ⟨.ended, feed, clock, []⟩ := by
  unfold pull
  rw [Option.isNone_iff_eq_none.mp closed]

end Feed

section Steps

variable {body : Body ε} {session next : Session} {clock later : Clock} {count : Nat}
  {buffer frame : Bytes} {log : List Log.Record}

theorem results_cons {call : Call} {emission : Emission}
    (performed : call.perform session clock = ⟨.ok emission, next, later, log⟩)
    (rest : List Call) :
    session.results clock (call :: rest) = .ok emission :: next.results later rest := by
  simp [Session.results, Session.steps, Step.outcome, performed]

theorem Reads.nil (body : Body ε) : Reads body [] := by
  intro index buffer present
  contradiction

theorem Reads.cons {buffers : List Bytes} (first : body 0 = some (.ok buffer))
    (read : Reads (fun index => body (index + 1)) buffers) : Reads body (buffer :: buffers) := by
  intro index found present
  cases index with
  | zero => exact Option.some.inj present ▸ first
  | succ index => exact read index found present

theorem Closing.cons {buffers frames : List Bytes} {item : Option (Except ε Bytes)}
    {last : Yield ε}
    (performed : (Call.frame buffer).perform session clock =
      ⟨.ok (.frame frame), next, later, log⟩)
    (closing : Closing next later buffers frames item last) :
    Closing session clock (buffer :: buffers) (frame :: frames) item last := by
  cases closing with
  | ended signed =>
      apply Closing.ended
      rw [List.map_cons, List.cons_append, results_cons performed, signed]
      rfl
  | bodyFailed error signed =>
      apply Closing.bodyFailed
      rw [List.map_cons, results_cons performed, signed]
      rfl
  | signingFailed signed =>
      apply Closing.signingFailed
      rw [List.map_cons, List.cons_append, results_cons performed, signed]
      rfl

theorem Course.cons {yields : List (Yield ε)} (first : body 0 = some (.ok buffer))
    (performed : (Call.frame buffer).perform session clock =
      ⟨.ok (.frame frame), next, later, log⟩)
    (course : Course (fun index => body (index + 1)) next later count yields) :
    Course body session clock (count + 1) (.frame frame :: yields) := by
  cases course with
  | @going buffers frames read signed all =>
      have results : session.results clock ((buffer :: buffers).map .frame) =
          framed (frame :: frames) := by
        rw [List.map_cons, results_cons performed, signed]
        rfl
      exact .going (read.cons first) results (congrArg (· + 1) all)
  | closed read closing before =>
      have course : Course body session clock (count + 1) _ :=
        .closed (read.cons first) (closing.cons performed) (Nat.succ_lt_succ before)
      rw [List.length_cons, Nat.add_sub_add_right] at course
      exact course

end Steps

namespace Feed

-- Induction on the questions: a frame is put in front of the course of what the body answers
-- afterwards, and whatever closes the feed is followed by nothing.
theorem course_of_turns (body : Body ε) (session : Session) (asked : Nat) (clock : Clock)
    (count : Nat) :
    Course (fun index => body (asked + index)) session clock count
      ((turns (pull body) ⟨some session, asked⟩ clock count).map (·.given.yield)) := by
  induction count generalizing session asked clock with
  | zero =>
      have signed : session.results clock (([] : List Bytes).map .frame) = framed [] := rfl
      exact .going (.nil _) signed rfl
  | succ count ih =>
      simp only [turns, List.map_cons, pull_open]
      rcases advance_cases session (asked + 1) (body asked) clock with
        ⟨buffer, frame, next, log, answered, performed, done⟩ |
          ⟨last, later, log, closing, _, done⟩
      · rw [done]
        refine Course.cons answered performed ?_
        have rest := ih next (asked + 1) clock.tick
        simpa only [Nat.add_assoc, Nat.add_comm 1] using rest
      · rw [done, turns_closed (pull_closed body later rfl)]
        have course : Course (fun index => body (asked + index)) session clock (count + 1) _ :=
          .closed (.nil _) closing (Nat.succ_pos count)
        simpa using course

end Feed

structure Turn.Frugal (turn : Turn (Yield ε)) : Prop where
  asks : turn.feed.isClosed = false → turn.given.feed.asked = turn.feed.asked + 1
  draws : turn.feed.isClosed = false →
    turn.given.clock = turn.clock ∨ turn.given.clock = turn.clock.tick

namespace Feed

theorem pull_frugal (body : Body ε) (feed : Feed) (clock : Clock) :
    Turn.Frugal ⟨feed, clock, pull body feed clock⟩ := by
  obtain ⟨session, asked⟩ := feed
  cases session with
  | none =>
      constructor
      · exact fun opened => nomatch opened
      · exact fun opened => nomatch opened
  | some session =>
      rcases advance_cases session (asked + 1) (body asked) clock with
        ⟨buffer, frame, next, log, _, _, done⟩ | ⟨last, later, log, _, drawn, done⟩
      · rw [← pull_open] at done
        constructor
        · exact fun _ => done ▸ rfl
        · exact fun _ => done ▸ Or.inr rfl
      · rw [← pull_open] at done
        constructor
        · exact fun _ => done ▸ rfl
        · exact fun _ => done ▸ drawn

/-- However often a feed is asked, it gives what its session gives by hand, one question to the
body and at most one instant at a time; once closed it gives nothing and takes nothing. -/
theorem pulls_follow_course (body : Body ε) (session : Session) (clock : Clock) (count : Nat) :
    Course body session clock count
        ((turns (pull body) (start session) clock count).map (·.given.yield)) ∧
      (∀ turn ∈ turns (pull body) (start session) clock count, turn.Frugal) ∧
      (turns (pull body) (start session) clock count).Pairwise fun earlier later =>
        earlier.given.feed.isClosed = true →
          later.given = ⟨.ended, earlier.given.feed, earlier.given.clock, []⟩ := by
  refine ⟨?course, ?frugal, ?rests⟩
  case course => simpa [start] using course_of_turns body session 0 clock count
  case frugal => exact forall_turns (pull_frugal body) (start session) clock count
  case rests => exact turns_rest (fun _ => pull_closed body) (start session) clock count

end Feed

end SigV4.Event
