import SigV4.Canonical
import SigV4.Proofs.AsciiText
import SigV4.Proofs.Pieces
/-!
Escaped texts. What `Percent.encode` writes holds only the octets that are kept, the percent sign
and digits, so no separator of a request stands in an escaped field; and the field is read back
from it.
-/
namespace SigV4.Percent

def isUpperDigit (octet : UInt8) : Bool :=
  Bytes.isDigit octet || ('A'.toUInt8 ≤ octet && octet ≤ 'F'.toUInt8)

def isWritten (keep : UInt8 → Bool) (octet : UInt8) : Bool :=
  keep octet || octet == '%'.toUInt8 || isUpperDigit octet

theorem upperDigits (octet : UInt8) :
    isUpperDigit (Hex.upperDigit (octet >>> 4)) = true ∧
      isUpperDigit (Hex.upperDigit (octet &&& 15)) = true :=
  Bytes.forall_octet
    (fun octet => isUpperDigit (Hex.upperDigit (octet >>> 4)) = true ∧
      isUpperDigit (Hex.upperDigit (octet &&& 15)) = true)
    (by decide +kernel) octet

theorem isWritten_of_mem_escape {keep : UInt8 → Bool} {octet written : UInt8}
    (member : written ∈ escape octet) : isWritten keep written = true := by
  obtain ⟨high, low⟩ := upperDigits octet
  simp only [escape, List.mem_cons, List.not_mem_nil, or_false] at member
  rcases member with rfl | rfl | rfl
  · simp [isWritten]
  · simp [isWritten, high]
  · simp [isWritten, low]

theorem isWritten_of_mem_encode {keep : UInt8 → Bool} {bytes : Bytes} {written : UInt8}
    (member : written ∈ encode keep bytes) : isWritten keep written = true := by
  obtain ⟨octet, _, inside⟩ := List.mem_flatMap.mp member
  split at inside
  · next kept =>
      have same := List.mem_singleton.mp inside
      simp [isWritten, same, kept]
  · exact isWritten_of_mem_escape inside

theorem not_mem_encode {keep : UInt8 → Bool} {separator : UInt8}
    (unwritten : isWritten keep separator = false) (bytes : Bytes) :
    separator ∉ encode keep bytes :=
  Bytes.not_mem_of_class (fun _ member => isWritten_of_mem_encode member) unwritten

-- The two classes of octets that requests keep.
theorem isAscii_of_isWritten_path {octet : UInt8}
    (written : isWritten isUnreservedOrSlash octet = true) : Bytes.isAscii octet = true :=
  Bytes.of_class written (by decide +kernel)

theorem isWritten_path_of_query {octet : UInt8} (written : isWritten isUnreserved octet = true) :
    isWritten isUnreservedOrSlash octet = true := by
  simp only [isWritten, isUnreservedOrSlash, Bool.or_eq_true] at written ⊢
  rcases written with (kept | mark) | digit
  · exact Or.inl (Or.inl (Or.inl kept))
  · exact Or.inl (Or.inr mark)
  · exact Or.inr digit

@[simp] theorem ofText_encodeText_path (text : String) :
    Bytes.ofText (encodeText isUnreservedOrSlash text) =
      encode isUnreservedOrSlash (Bytes.ofText text) :=
  Bytes.ofText_asciiText fun _ member =>
    isAscii_of_isWritten_path (isWritten_of_mem_encode member)

@[simp] theorem ofText_encodeText_query (text : String) :
    Bytes.ofText (encodeText isUnreserved text) = encode isUnreserved (Bytes.ofText text) :=
  Bytes.ofText_asciiText fun _ member =>
    isAscii_of_isWritten_path (isWritten_path_of_query (isWritten_of_mem_encode member))

/-- A text that needs no escape is written as it is. -/
theorem encodeText_plain {text : String}
    (plain : ∀ octet ∈ Bytes.ofText text, isUnreserved octet = true) :
    encodeText isUnreserved text = text := by
  apply Bytes.ofText_injective
  rw [ofText_encodeText_query, encode, List.flatMap_def,
    List.map_congr_left fun octet member => if_pos (plain octet member), ← List.flatMap_def,
    List.flatMap_singleton']

theorem encode_injective {keep : UInt8 → Bool} (marked : keep '%'.toUInt8 = false)
    {left right : Bytes} (same : encode keep left = encode keep right) : left = right := by
  rw [← decode_encode marked left, same, decode_encode marked]

theorem encodeText_path_injective {left right : String}
    (same : encodeText isUnreservedOrSlash left = encodeText isUnreservedOrSlash right) :
    left = right := by
  have octets := congrArg Bytes.ofText same
  rw [ofText_encodeText_path, ofText_encodeText_path] at octets
  exact Bytes.ofText_injective (encode_injective rfl octets)

theorem encodeText_query_injective {left right : String}
    (same : encodeText isUnreserved left = encodeText isUnreserved right) : left = right := by
  have octets := congrArg Bytes.ofText same
  rw [ofText_encodeText_query, ofText_encodeText_query] at octets
  exact Bytes.ofText_injective (encode_injective rfl octets)

end SigV4.Percent
