import SigV4.Header
import SigV4.Fault
/-!
Requests as they are sent: method, uri and headers.
-/
namespace SigV4

structure Request where
  method : Method
  uri : Uri
  headers : Headers
  deriving DecidableEq

structure RawHeader where
  name : Bytes
  value : Bytes
  sensitive : Bool

namespace RawHeader

def value? (header : RawHeader) : Except Fault HeaderValue :=
  match HeaderValue.ofBytes? header.value header.sensitive with
  | some value => .ok value
  | none => .error .headerValueInvalid

def name? (header : RawHeader) : Except Fault HeaderName :=
  match HeaderName.ofBytes? header.name with
  | some name => .ok name
  | none => .error .headerNameInvalid

def check (header : RawHeader) : Except Fault (HeaderName × HeaderValue) := do
  let value ← header.value?
  return (← header.name?, value)

end RawHeader

namespace Request

def method? (octets : Bytes) : Except Fault Method :=
  match Method.ofBytes? octets with
  | some method => .ok method
  | none => .error .methodInvalid

/-- All header values are checked first, then the method, the uri and the header names. -/
def ofRaw (method uri : Bytes) (headers : List RawHeader) : Except Fault Request := do
  let values ← headers.mapM (·.value?)
  let method ← method? method
  let uri ← (Uri.parse uri).mapError .uri
  let names ← headers.mapM (·.name?)
  return ⟨method, uri, ⟨names.zip values⟩⟩

end Request

end SigV4
