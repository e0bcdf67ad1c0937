/-!
Octet strings. All that is hashed, framed or sent is a list of octets, and a text enters it
through its UTF-8 form: `ofText` is injective, turns concatenation into concatenation, and is
undone by `text?`.
-/
namespace SigV4

abbrev Bytes := List UInt8

namespace Bytes

def ofText (text : String) : Bytes := text.toUTF8.data.toList

def text? (bytes : Bytes) : Option String := String.fromUTF8? bytes.toByteArray

/-- One character per octet; used where every octet is ASCII. -/
def asciiText (bytes : Bytes) : String :=
  String.ofList (bytes.map fun octet => Char.ofNat octet.toNat)

/-- The `width` lowest octets of a number, the highest of them first. -/
def bigEndian : Nat → Nat → Bytes
  | 0, _ => []
  | width + 1, value => bigEndian width (value / 256) ++ [UInt8.ofNat value]

def isDigit (octet : UInt8) : Bool := '0'.toUInt8 ≤ octet && octet ≤ '9'.toUInt8

def isUpper (octet : UInt8) : Bool := 'A'.toUInt8 ≤ octet && octet ≤ 'Z'.toUInt8

def isLower (octet : UInt8) : Bool := 'a'.toUInt8 ≤ octet && octet ≤ 'z'.toUInt8

def isAlphanumeric (octet : UInt8) : Bool := isDigit octet || isUpper octet || isLower octet

def lower (octet : UInt8) : UInt8 := if isUpper octet then octet + 32 else octet

def isOneOf (characters : List Char) (octet : UInt8) : Bool :=
  characters.any fun character => character.toUInt8 == octet

-- The view of texts as octets: everything that is proved about texts on the wire goes through
-- these five.

@[simp] theorem ofText_append (left right : String) :
    ofText (left ++ right) = ofText left ++ ofText right := by
  simp [ofText, String.toUTF8_eq_toByteArray, String.toByteArray_append]

theorem length_ofText (text : String) : (ofText text).length = text.utf8ByteSize := by
  simp [ofText, String.toUTF8_eq_toByteArray]

theorem ofText_injective {left right : String} (same : ofText left = ofText right) :
    left = right := by
  apply String.toByteArray_inj.mp
  apply ByteArray.ext
  simpa [ofText, String.toUTF8_eq_toByteArray] using same

@[simp] theorem text?_ofText (text : String) : text? (ofText text) = some text := by
  have bytes : (ofText text).toByteArray = text.toByteArray := by
    apply ByteArray.ext
    simp [ofText, String.toUTF8_eq_toByteArray]
  rw [text?, bytes, String.fromUTF8?, dif_pos text.isValidUTF8]
  rfl

theorem ofText_of_text? {bytes : Bytes} {text : String} (found : text? bytes = some text) :
    ofText text = bytes := by
  unfold text? String.fromUTF8? at found
  split at found
  · rw [Option.some.injEq] at found
    subst found
    simp [ofText, String.fromUTF8, String.toUTF8_eq_toByteArray]
  · contradiction

/-- There are 256 octets, so a property of all of them can be settled by trying each. -/
theorem forall_octet (holds : UInt8 → Prop) (tried : ∀ value : Fin 256, holds (UInt8.ofFin value))
    (octet : UInt8) : holds octet := by
  have found := tried octet.toFin
  rwa [UInt8.ofFin_toFin] at found

@[simp] theorem length_bigEndian (width value : Nat) : (bigEndian width value).length = width := by
  induction width generalizing value with
  | zero => rfl
  | succ width ih => simp [bigEndian, ih]

end Bytes

end SigV4
