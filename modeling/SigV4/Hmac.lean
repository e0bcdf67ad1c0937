import SigV4.Sha256
/-!
Keyed hashes. The key fills one block: a longer one is hashed first, a shorter one is followed by
zeros.
-/
namespace SigV4.Hmac

def keyBlock (key : Bytes) : Bytes :=
  let short := if key.length > 64 then Sha256.hash key else key
  short ++ List.replicate (64 - short.length) 0

def mac (key message : Bytes) : Bytes :=
  let inner := (keyBlock key).map (· ^^^ 0x36)
  let outer := (keyBlock key).map (· ^^^ 0x5c)
  Sha256.hash (outer ++ Sha256.hash (inner ++ message))

def hexMac (key message : Bytes) : String := Hex.encode (mac key message)

@[simp] theorem length_mac (key message : Bytes) : (mac key message).length = 32 := by
  simp [mac]

end SigV4.Hmac
