import SigV4.Percent
import SigV4.Utf8
/-!
Form-encoded pairs, as the query of a uri spells them. Pieces between ampersands are pairs, a
piece without an equals sign has an empty value, and an empty piece is no pair at all.
-/
namespace SigV4.Form

def split (separator : UInt8) (bytes : Bytes) : List Bytes :=
  bytes.foldr
    (fun octet pieces =>
      if octet = separator then [] :: pieces
      else
        match pieces with
        | piece :: rest => (octet :: piece) :: rest
        | [] => [[octet]])
    [[]]

def cut (separator : UInt8) (bytes : Bytes) : Bytes × Bytes :=
  (bytes.takeWhile (· != separator), (bytes.dropWhile (· != separator)).drop 1)

def plusToSpace (octet : UInt8) : UInt8 :=
  if octet = '+'.toUInt8 then ' '.toUInt8 else octet

def decodeBytes (bytes : Bytes) : Bytes := Percent.decode (bytes.map plusToSpace)

def decode (bytes : Bytes) : String := Utf8.decodeLossy (decodeBytes bytes)

def pieces (bytes : Bytes) : List (Bytes × Bytes) :=
  ((split '&'.toUInt8 bytes).filter (!·.isEmpty)).map (cut '='.toUInt8)

def parse (bytes : Bytes) : List (String × String) :=
  (pieces bytes).map fun (key, value) => (decode key, decode value)

end SigV4.Form
