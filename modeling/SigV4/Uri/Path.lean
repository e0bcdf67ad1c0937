import SigV4.Bytes
import SigV4.Uri.Error
/-!
Path and query of a uri. Percent escapes are not read here: both are kept as they are spelled, and
may hold any UTF-8 beside the characters that each allows. A fragment is dropped.
-/
namespace SigV4

namespace PathAndQuery

def maxLength : Nat := 65534

def isPathByte (octet : UInt8) : Bool :=
  octet == 0x21 || octet == 0x22 || (0x24 ≤ octet && octet ≤ 0x3B) || octet == 0x3D ||
    (0x40 ≤ octet && octet ≤ 0x5F) || (0x61 ≤ octet && octet ≤ 0x7E) || 0x80 ≤ octet

def isQueryByte (octet : UInt8) : Bool :=
  octet == 0x21 || (0x24 ≤ octet && octet ≤ 0x3B) || octet == 0x3D ||
    (0x3F ≤ octet && octet ≤ 0x7E) || 0x80 ≤ octet

def isPath (path : String) : Bool := (Bytes.ofText path).all isPathByte

def isQuery (query : String) : Bool := (Bytes.ofText query).all isQueryByte

end PathAndQuery

structure PathAndQuery where
  path : String
  query : Option String
  path_ok : PathAndQuery.isPath path = true
  query_ok : ∀ text ∈ query, PathAndQuery.isQuery text = true
  deriving DecidableEq

namespace PathAndQuery

def blank : PathAndQuery := ⟨"", none, by decide, by simp⟩

def ofParts? (path : Bytes) (query : Option Bytes) : Option PathAndQuery :=
  match Bytes.text? path, query with
  | some path, none =>
      if path_ok : isPath path = true then some ⟨path, none, path_ok, by simp⟩ else none
  | some path, some query =>
      match Bytes.text? query with
      | some query =>
          if valid : isPath path = true ∧ isQuery query = true then
            some ⟨path, some query, valid.1, by simpa using valid.2⟩
          else none
      | none => none
  | none, _ => none

def ofTail (octets : Bytes) : Except UriError PathAndQuery :=
  let octets := octets.takeWhile (· != '#'.toUInt8)
  let path := octets.takeWhile (· != '?'.toUInt8)
  let query :=
    match octets.drop path.length with
    | [] => none
    | _ :: query => some query
  match ofParts? path query with
  | some parts => .ok parts
  | none => .error .invalidCharacter

def parse (octets : Bytes) : Except UriError PathAndQuery :=
  match octets with
  | [] => .error .empty
  | first :: _ =>
      if octets.length > maxLength then .error .tooLong
      else if Bytes.isOneOf ['/', '?', '#'] first || octets == Bytes.ofText "*" then ofTail octets
      else .error .pathWithoutSlash

def requestPath (parts : PathAndQuery) : String := if parts.path = "" then "/" else parts.path

end PathAndQuery

end SigV4
