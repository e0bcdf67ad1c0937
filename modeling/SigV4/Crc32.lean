import SigV4.Bytes
/-!
The cyclic redundancy check of frames: reflected polynomial, register and result complemented.
-/
namespace SigV4.Crc32

def shift (register : UInt32) : UInt32 :=
  if register &&& 1 = 1 then (register >>> 1) ^^^ 0xEDB88320 else register >>> 1

def absorb (register : UInt32) (octet : UInt8) : UInt32 :=
  shift (shift (shift (shift (shift (shift (shift (shift (register ^^^ octet.toUInt32))))))))

def checksum (bytes : Bytes) : UInt32 := (bytes.foldl absorb 0xFFFFFFFF).complement

-- The published check value of the polynomial.
example : checksum (Bytes.ofText "123456789") = 0xCBF43926 := by decide +kernel

end SigV4.Crc32
