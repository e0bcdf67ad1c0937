import SigV4.Hmac
import SigV4.Scope
/-!
Signatures. The key of a scope is derived from the secret by one keyed hash for each part of the
scope; what is signed is a text of the algorithm, the time, the scope and a list of digests, each
on a line.
-/
namespace SigV4.Signature

def requestAlgorithm : String := "AWS4-HMAC-SHA256"

def frameAlgorithm : String := "AWS4-HMAC-SHA256-PAYLOAD"

def derive (secret : String) (parts : List String) : Bytes :=
  parts.foldl (fun key part => Hmac.mac key (Bytes.ofText part)) (Bytes.ofText ("AWS4" ++ secret))

def key (secret : String) (scope : Scope) : Bytes := derive secret scope.parts

def lines (algorithm datetime scope : String) (digests : List String) : String :=
  String.intercalate "\n" ([algorithm, datetime, scope] ++ digests)

def stringToSign (algorithm : String) (scope : Scope) (digests : List String) : String :=
  lines algorithm scope.datetime scope.text digests

def octets (key : Bytes) (text : String) : Bytes := Hmac.mac key (Bytes.ofText text)

def hex (key : Bytes) (text : String) : String := Hex.encode (octets key text)

end SigV4.Signature
