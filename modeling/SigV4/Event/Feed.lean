import SigV4.Event.Session
/-!
Bodies that are signed as they are read. A feed asks its body for one buffer at a time and gives
its frame; at the end of the body it gives the frame that ends the session, and closes. An error
closes it without that frame. A closed feed asks for nothing and gives nothing.
-/
namespace SigV4.Event

/-- A body answers each request with a buffer, an error, or its end. It may go on after either. -/
abbrev Body (ε : Type) := Nat → Option (Except ε Bytes)

inductive Answer (ε : Type) where
  | pending
  | ready (item : Option (Except ε Bytes))

inductive Yield (ε : Type) where
  | frame (octets : Bytes)
  | bodyFailed (error : ε)
  | signingFailed (fault : Fault)
  | ended

/-- A feed without a session is closed; `asked` counts the questions to its body. -/
structure Feed where
  session : Option Session
  asked : Nat

structure Pulled (α : Type) where
  yield : α
  feed : Feed
  clock : Clock
  log : List Log.Record

namespace Feed

def start (session : Session) : Feed := ⟨some session, 0⟩

def isClosed (feed : Feed) : Bool := feed.session.isNone

def advance {ε : Type} (session : Session) (asked : Nat) (item : Option (Except ε Bytes))
    (clock : Clock) : Pulled (Yield ε) :=
  match item with
  | some (.ok payload) =>
      let signed := session.signFrame payload clock
      match signed.result with
      | .ok frame => ⟨.frame frame, ⟨some signed.session, asked⟩, signed.clock, signed.log⟩
      | .error fault => ⟨.signingFailed fault, ⟨none, asked⟩, signed.clock, signed.log⟩
  | some (.error error) => ⟨.bodyFailed error, ⟨none, asked⟩, clock, []⟩
  | none =>
      let signed := session.finish clock
      match signed.result with
      | .ok frame => ⟨.frame frame, ⟨none, asked⟩, signed.clock, signed.log⟩
      | .error fault => ⟨.signingFailed fault, ⟨none, asked⟩, signed.clock, signed.log⟩

def pull {ε : Type} (body : Body ε) (feed : Feed) (clock : Clock) : Pulled (Yield ε) :=
  match feed.session with
  | none => ⟨.ended, feed, clock, []⟩
  | some session => advance session (feed.asked + 1) (body feed.asked) clock

/-- As `pull`, for a body that may not be ready; nothing but the question is then spent. -/
def poll {ε : Type} (body : Nat → Answer ε) (feed : Feed) (clock : Clock) :
    Pulled (Option (Yield ε)) :=
  match feed.session with
  | none => ⟨some .ended, feed, clock, []⟩
  | some session =>
      match body feed.asked with
      | .pending => ⟨none, ⟨some session, feed.asked + 1⟩, clock, []⟩
      | .ready item =>
          let pulled := advance session (feed.asked + 1) item clock
          ⟨some pulled.yield, pulled.feed, pulled.clock, pulled.log⟩

end Feed

end SigV4.Event
