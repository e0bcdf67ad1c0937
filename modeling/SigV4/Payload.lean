import SigV4.Draft
import SigV4.Sha256
/-!
How the payload of a request enters its signature: hashed in full, left out over an encrypted
transport, or signed frame by frame as it is streamed.
-/
namespace SigV4

inductive PayloadHash where
  | digest (text : String)
  | unsigned
  | streamingEvents
  deriving DecidableEq, Repr

namespace PayloadHash

def text : PayloadHash → String
  | .digest text => text
  | .unsigned => "UNSIGNED-PAYLOAD"
  | .streamingEvents => "STREAMING-AWS4-HMAC-SHA256-EVENTS"

/-- What stands for a payload that was not hashed has to be announced in a header. -/
def requiresHeader : PayloadHash → Bool
  | .digest _ => false
  | .unsigned | .streamingEvents => true

end PayloadHash

inductive PayloadStrategy where
  | full
  | unsignedOverTls
  | streaming
  deriving DecidableEq, Repr

namespace PayloadStrategy

def parse (name : String) : Except Fault PayloadStrategy :=
  let name := name.map Char.toLower
  if name = "full" then .ok .full
  else if name = "unsigned" ∨ name = "unsigned_over_tls" then .ok .unsignedOverTls
  else if name = "streaming" then .ok .streaming
  else .error (.strategyUnknown name)

/-- A hash that the request carries already is taken as it is. -/
def fullHash (draft : Draft) (body : Option Bytes) : Except Fault PayloadHash := do
  match ← draft.headerText? .amzContentSha256 with
  | some text => return .digest text
  | none =>
      match body with
      | some body => return .digest (Sha256.hexHash body)
      | none => throw .payloadUnavailable

def resolve (strategy : PayloadStrategy) (draft : Draft) (body : Option Bytes) :
    Except Fault PayloadHash :=
  match strategy with
  | .full => fullHash draft body
  | .unsignedOverTls =>
      if draft.isEncrypted then .ok .unsigned
      else (fullHash draft body).mapError fun _ => .unsignedOverPlain draft.scheme
  | .streaming => .ok .streamingEvents

end PayloadStrategy

end SigV4
