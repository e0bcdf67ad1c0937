import SigV4.Bytes
/-!
Hexadecimal digits of octets: lower-case for digests and signatures, upper-case for percent
escapes.
-/
namespace SigV4.Hex

def lowerDigit (value : UInt8) : UInt8 :=
  if value < 10 then '0'.toUInt8 + value else 'a'.toUInt8 + (value - 10)

def upperDigit (value : UInt8) : UInt8 :=
  if value < 10 then '0'.toUInt8 + value else 'A'.toUInt8 + (value - 10)

def digits (bytes : Bytes) : Bytes :=
  bytes.flatMap fun (octet : UInt8) => [lowerDigit (octet >>> 4), lowerDigit (octet &&& 15)]

def encode (bytes : Bytes) : String := Bytes.asciiText (digits bytes)

def value? (digit : UInt8) : Option UInt8 :=
  if Bytes.isDigit digit then some (digit - '0'.toUInt8)
  else if 'a'.toUInt8 ≤ digit && digit ≤ 'f'.toUInt8 then some (digit - 'a'.toUInt8 + 10)
  else if 'A'.toUInt8 ≤ digit && digit ≤ 'F'.toUInt8 then some (digit - 'A'.toUInt8 + 10)
  else none

theorem length_digits (bytes : Bytes) : (digits bytes).length = 2 * bytes.length := by
  induction bytes with
  | nil => rfl
  | cons octet rest ih =>
      simp only [digits, List.flatMap_cons, List.length_append, List.length_cons,
        List.length_nil] at ih ⊢
      omega

end SigV4.Hex
