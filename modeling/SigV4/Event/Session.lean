import SigV4.Credential
import SigV4.Event.Order
import SigV4.Fault
import SigV4.Log
import SigV4.Signature
/-!
Sessions of signed frames. Every frame names the instant it was signed at and carries a signature
that covers the one before it; the first covers the signature of the request. A session goes on
from a frame only once the frame is encoded, so a call that fails leaves it where it was.
-/
namespace SigV4.Event

structure Session where
  credential : Credential
  region : String
  service : String
  prior : String
  deriving DecidableEq

structure Outcome (α : Type) where
  result : Except Fault α
  session : Session
  clock : Clock
  log : List Log.Record

structure Signed where
  message : Message
  signature : String
  log : List Log.Record

namespace Session

def previewLength : Nat := 32

/-- A signed message as it is logged: octets in hexadecimal, the payload cut to a length. -/
def messageText (date : Timestamp) (signature payload : Bytes) (shown : Nat) : String :=
  "Message \x7b headers: \x7b " ++ dateName ++ ": Timestamp(" ++ date.text ++ "), "
    ++ signatureName ++ ": " ++ Hex.encode signature ++ " \x7d, payload: "
    ++ Hex.encode (payload.take shown)
    ++ (if shown < payload.length then "... (" ++ toString payload.length ++ " bytes)" else "")
    ++ " \x7d"

def signedNote (date : Timestamp) (signature payload : Bytes) (shown : Nat) : String :=
  "signed event stream frame: " ++ messageText date signature payload shown

def scope (session : Session) (time : Instant) : Scope := ⟨session.region, session.service, time⟩

def stringToSign (session : Session) (time : Instant) (block payload : Bytes) : String :=
  Signature.stringToSign Signature.frameAlgorithm (session.scope time)
    [session.prior, Sha256.hexHash block, Sha256.hexHash payload]

def sign (session : Session) (time : Instant) (payload : Bytes) : Except Fault Signed := do
  let date := Timestamp.ofMillis time.millis
  let dated := sortHeaders [⟨dateName, .timestamp date⟩]
  let block ← (encodeHeaders dated).mapError .headersUnencodable
  let key := Signature.key session.credential.secretAccessKey (session.scope time)
  let signature := Signature.octets key (session.stringToSign time block payload)
  return {
    message := ⟨sortHeaders (dated ++ [⟨signatureName, .bytes signature⟩]), payload⟩
    signature := Hex.encode signature
    log :=
      [.debug (signedNote date signature payload previewLength),
       .trace (signedNote date signature payload payload.length)] }

def signMessage (session : Session) (payload : Bytes) (clock : Clock) : Outcome Message :=
  match session.sign clock.now payload with
  | .ok signed =>
      ⟨.ok signed.message, { session with prior := signed.signature }, clock.tick, signed.log⟩
  | .error fault => ⟨.error fault, session, clock.tick, []⟩

def signFrame (session : Session) (payload : Bytes) (clock : Clock) : Outcome Bytes :=
  match session.sign clock.now payload with
  | .ok signed =>
      match signed.message.encode with
      | .ok frame => ⟨.ok frame, { session with prior := signed.signature }, clock.tick, signed.log⟩
      | .error error => ⟨.error (.frameUnencodable error), session, clock.tick, signed.log⟩
  | .error fault => ⟨.error fault, session, clock.tick, []⟩

/-- The frame of a whole event; an event that has no encoding draws no instant. -/
def signEvent (session : Session) (event : Message) (clock : Clock) : Outcome Bytes :=
  match event.encode with
  | .ok payload => session.signFrame payload clock
  | .error error => ⟨.error (.eventUnencodable error), session, clock, []⟩

def finish (session : Session) (clock : Clock) : Outcome Bytes := session.signFrame [] clock

end Session

end SigV4.Event
