import SigV4.Bytes
import SigV4.Uri.Error
/-!
Schemes. The two of the web are values of their own; any other is kept as it is spelled.
-/
namespace SigV4

inductive Scheme where
  | http
  | https
  | other (name : String)
  deriving DecidableEq, Repr

namespace Scheme

def maxLength : Nat := 64

def text : Scheme → String
  | .http => "http"
  | .https => "https"
  | .other name => name

def isSchemeByte (octet : UInt8) : Bool :=
  Bytes.isAlphanumeric octet || Bytes.isOneOf ['+', '-', '.', '~'] octet

/-- A scheme on its own; only the exact lower-case spellings are schemes of the web. -/
def parse (name : String) : Except UriError Scheme :=
  let octets := Bytes.ofText name
  if name = "http" then .ok .http
  else if name = "https" then .ok .https
  else if octets.length > maxLength then .error .schemeTooLong
  else if octets.all isSchemeByte then .ok (.other name)
  else .error .invalidScheme

def startsWith (spelling : String) (octets : Bytes) : Bool :=
  let expected := Bytes.ofText spelling
  (octets.take expected.length).map Bytes.lower == expected

/-- The scheme in front of a uri, if there is one, and what follows its colon and slashes. Here
the schemes of the web are known in either case. -/
def takeFront (octets : Bytes) : Except UriError (Option (Scheme × Bytes)) :=
  if startsWith "http://" octets then .ok (some (.http, octets.drop 7))
  else if startsWith "https://" octets then .ok (some (.https, octets.drop 8))
  else
    let name := octets.takeWhile isSchemeByte
    let rest := octets.drop name.length
    if octets.length > 3 ∧ rest.take 3 = Bytes.ofText "://" then
      if name.length > maxLength then .error .schemeTooLong
      else .ok (some (.other (Bytes.asciiText name), rest.drop 3))
    else .ok none

end Scheme

end SigV4
