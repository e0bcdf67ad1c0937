import SigV4.Bytes
import SigV4.Uri.Error
/-!
Authorities: user information and host. `Authority.scan` reads one from the front of a uri,
up to the slash, question mark or number sign that ends it; an `Authority` is a text that is all
authority.
-/
namespace SigV4

namespace Authority

/-- The unreserved and reserved characters of uris, without the three that end an authority. -/
def isAuthorityByte (octet : UInt8) : Bool :=
  Bytes.isAlphanumeric octet ||
    Bytes.isOneOf
      ['-', '.', '_', '~', ':', '[', ']', '@', '!', '$', '&', '\'', '(', ')', '*', '+', ',', ';',
       '=']
      octet

def isEnd (octet : UInt8) : Bool := Bytes.isOneOf ['/', '?', '#'] octet

/-- What has been seen of an authority. An at sign makes all before it user information, and a
closing bracket ends a host address; both forget the colons and percent signs before them. -/
structure Survey where
  colons : Nat := 0
  opened : Bool := false
  closed : Bool := false
  percent : Bool := false
  endsInAt : Bool := false
  deriving DecidableEq, Repr

def maxColons : Nat := 8

def Survey.absorb (seen : Survey) (octet : UInt8) : Except UriError Survey :=
  let seen := { seen with endsInAt := false }
  if octet = ':'.toUInt8 then
    if seen.colons ≥ maxColons then .error .invalidAuthority
    else .ok { seen with colons := seen.colons + 1 }
  else if octet = '['.toUInt8 then
    if seen.percent || seen.opened then .error .invalidAuthority
    else .ok { seen with opened := true }
  else if octet = ']'.toUInt8 then
    if !seen.opened || seen.closed then .error .invalidAuthority
    else .ok { seen with closed := true, colons := 0, percent := false }
  else if octet = '@'.toUInt8 then
    .ok { seen with endsInAt := true, colons := 0, percent := false }
  else if octet = '%'.toUInt8 then .ok { seen with percent := true }
  else if isAuthorityByte octet then .ok seen
  else .error .invalidCharacter

def survey (seen : Survey) : Bytes → Except UriError Survey
  | [] => .ok seen
  | octet :: rest =>
      match seen.absorb octet with
      | .ok seen => survey seen rest
      | .error refused => .error refused

def Survey.accepts (seen : Survey) : Bool :=
  seen.opened == seen.closed && seen.colons ≤ 1 && !seen.endsInAt && !seen.percent

def scan (octets : Bytes) : Except UriError (Bytes × Bytes) :=
  let name := octets.takeWhile (!isEnd ·)
  match survey {} name with
  | .error refused => .error refused
  | .ok seen =>
      if seen.accepts then .ok (name, octets.dropWhile (!isEnd ·)) else .error .invalidAuthority

def isAuthority (octets : Bytes) : Bool :=
  !octets.isEmpty &&
    match scan octets with
    | .ok (_, rest) => rest.isEmpty
    | .error _ => false

end Authority

structure Authority where
  text : String
  valid : Authority.isAuthority (Bytes.ofText text) = true
  deriving DecidableEq, Repr

namespace Authority

def ofBytes? (octets : Bytes) : Option Authority :=
  let name := Bytes.asciiText octets
  if valid : isAuthority (Bytes.ofText name) = true then some ⟨name, valid⟩ else none

def parse (octets : Bytes) : Except UriError Authority :=
  if octets.isEmpty then .error .empty
  else
    match scan octets with
    | .error refused => .error refused
    | .ok _ =>
        match ofBytes? octets with
        | some authority => .ok authority
        | none => .error .invalidCharacter

end Authority

end SigV4
