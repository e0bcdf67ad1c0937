import SigV4.Uri.Scheme
import SigV4.Uri.Authority
import SigV4.Uri.Path
/-!
Uris: an absolute one with scheme and authority, an authority alone, or a path alone.
-/
namespace SigV4

structure Uri where
  scheme : Option Scheme
  authority : Option Authority
  pathAndQuery : PathAndQuery
  deriving DecidableEq

namespace Uri

def maxLength : Nat := 65534

def ofParts (scheme : Option Scheme) (authority : Option Authority)
    (pathAndQuery : Option PathAndQuery) : Except UriError Uri :=
  match scheme, authority, pathAndQuery with
  | some _, none, _ => .error .authorityMissing
  | some _, some _, none => .error .pathMissing
  | none, some _, some _ => .error .schemeMissing
  | scheme, authority, pathAndQuery =>
      .ok ⟨scheme, authority, pathAndQuery.getD PathAndQuery.blank⟩

def absolute (scheme : Scheme) (rest : Bytes) : Except UriError Uri := do
  if rest.isEmpty then throw .empty
  let (name, tail) ← Authority.scan rest
  match Authority.ofBytes? name with
  | some authority => return ⟨some scheme, some authority, ← PathAndQuery.ofTail tail⟩
  | none => throw .invalidFormat

/-- A uri without a scheme is an authority and nothing else. -/
def authorityOnly (octets : Bytes) : Except UriError Uri := do
  let (name, _) ← Authority.scan octets
  match Authority.ofBytes? name with
  | some authority =>
      if name == octets then return ⟨none, some authority, PathAndQuery.blank⟩
      else throw .invalidFormat
  | none => throw .invalidFormat

def pathOnly (octets : Bytes) : Except UriError Uri := do
  return ⟨none, none, ← PathAndQuery.ofTail octets⟩

def parse (octets : Bytes) : Except UriError Uri :=
  if octets.length > maxLength then .error .tooLong
  else
    match octets with
    | [] => .error .empty
    | [single] =>
        if single = '/'.toUInt8 || single = '*'.toUInt8 then pathOnly octets
        else do return ⟨none, some (← Authority.parse octets), PathAndQuery.blank⟩
    | first :: _ =>
        if first = '/'.toUInt8 then pathOnly octets
        else do
          match ← Scheme.takeFront octets with
          | some (scheme, rest) => absolute scheme rest
          | none => authorityOnly octets

def path (uri : Uri) : String :=
  if uri.scheme.isNone && uri.pathAndQuery.path == "" && uri.pathAndQuery.query.isNone then ""
  else uri.pathAndQuery.requestPath

def query (uri : Uri) : Option String := uri.pathAndQuery.query

def text (uri : Uri) : String :=
  let scheme := match uri.scheme with
    | some scheme => scheme.text ++ "://"
    | none => ""
  let authority := match uri.authority with
    | some authority => authority.text
    | none => ""
  let query := match uri.query with
    | some query => "?" ++ query
    | none => ""
  scheme ++ authority ++ uri.path ++ query

end Uri

end SigV4
