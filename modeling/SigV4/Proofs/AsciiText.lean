import SigV4.Percent
/-!
ASCII texts as octets. A text of one octet a character stands for itself, so the view `ofText` of
digests, decimals and encoded fields is computed character by character, and joining texts is
joining octets.
-/
namespace SigV4.Bytes

def isAscii (octet : UInt8) : Bool := octet < 0x80

/-- One class of octets lies in another if it does for each of the 256. -/
theorem of_class {narrow wide : UInt8 → Bool} {octet : UInt8} (inside : narrow octet = true)
    (tried : ∀ value : Fin 256,
      narrow (UInt8.ofFin value) = true → wide (UInt8.ofFin value) = true) :
    wide octet = true :=
  forall_octet (fun octet => narrow octet = true → wide octet = true) tried octet inside

theorem apart_of_class {kind other : UInt8 → Bool} {octet : UInt8} (inside : kind octet = true)
    (tried : ∀ value : Fin 256,
      kind (UInt8.ofFin value) = true → other (UInt8.ofFin value) = false) :
    other octet = false :=
  forall_octet (fun octet => kind octet = true → other octet = false) tried octet inside

theorem not_mem_of_class {kind : UInt8 → Bool} {octets : Bytes} {octet : UInt8}
    (all : ∀ written ∈ octets, kind written = true) (other : kind octet = false) :
    octet ∉ octets := by
  intro member
  rw [all octet member] at other
  contradiction

theorem ofText_ofList (characters : List Char) :
    ofText (String.ofList characters) = characters.flatMap String.utf8EncodeChar := by
  simp [ofText, String.toUTF8_eq_toByteArray, List.utf8Encode]

theorem encode_character {character : Char} (small : character.toNat < 128) :
    String.utf8EncodeChar character = [UInt8.ofNat character.toNat] := by
  have bound : character.val.toNat ≤ 127 := Nat.le_of_lt_succ small
  simp only [String.utf8EncodeChar, bound, if_true]
  rfl

theorem ofText_ofList_ascii {characters : List Char}
    (small : ∀ character ∈ characters, character.toNat < 128) :
    ofText (String.ofList characters) = characters.map fun character =>
      UInt8.ofNat character.toNat := by
  rw [ofText_ofList]
  induction characters with
  | nil => rfl
  | cons first rest ih =>
      have tail := ih fun character member => small character (List.mem_cons_of_mem first member)
      rw [List.flatMap_cons, encode_character (small first List.mem_cons_self), tail]
      rfl

theorem ascii_character (octet : UInt8) (ascii : isAscii octet = true) :
    (Char.ofNat octet.toNat).toNat = octet.toNat := by
  have bound : octet.toNat < 128 := by
    have less : octet < 0x80 := of_decide_eq_true ascii
    exact UInt8.lt_iff_toNat_lt.mp less
  have valid : octet.toNat.isValidChar := Or.inl (by omega)
  rw [Char.ofNat, dif_pos valid]
  rfl

/-- Reading octets as text and back changes no ASCII octet. -/
theorem ofText_asciiText {octets : Bytes} (ascii : ∀ octet ∈ octets, isAscii octet = true) :
    ofText (asciiText octets) = octets := by
  have small : ∀ character ∈ octets.map (fun octet => Char.ofNat octet.toNat),
      character.toNat < 128 := by
    intro character member
    obtain ⟨octet, inside, rfl⟩ := List.mem_map.mp member
    rw [ascii_character octet (ascii octet inside)]
    exact UInt8.lt_iff_toNat_lt.mp (of_decide_eq_true (ascii octet inside))
  rw [asciiText, ofText_ofList_ascii small, List.map_map]
  have same : ∀ octet ∈ octets,
      ((fun character : Char => UInt8.ofNat character.toNat) ∘
        fun octet => Char.ofNat octet.toNat) octet = octet := by
    intro octet member
    rw [Function.comp_apply, ascii_character octet (ascii octet member), UInt8.ofNat_toNat]
  rw [List.map_congr_left same, List.map_id']

theorem ofText_intercalate (separator : String) (texts : List String) :
    ofText (String.intercalate separator texts) =
      List.intercalate (ofText separator) (texts.map ofText) := by
  induction texts with
  | nil => rfl
  | cons first rest ih =>
      cases rest with
      | nil => simp
      | cons second rest => simpa using ih

end SigV4.Bytes

namespace SigV4.Hex

def isLowerDigit (octet : UInt8) : Bool :=
  Bytes.isDigit octet || ('a'.toUInt8 ≤ octet && octet ≤ 'f'.toUInt8)

theorem digits_cons (octet : UInt8) (rest : Bytes) :
    digits (octet :: rest) = lowerDigit (octet >>> 4) :: lowerDigit (octet &&& 15) :: digits rest :=
  rfl

theorem lowerDigit_high (octet : UInt8) : isLowerDigit (lowerDigit (octet >>> 4)) = true :=
  Bytes.forall_octet (fun octet => isLowerDigit (lowerDigit (octet >>> 4)) = true)
    (by decide +kernel) octet

theorem lowerDigit_low (octet : UInt8) : isLowerDigit (lowerDigit (octet &&& 15)) = true :=
  Bytes.forall_octet (fun octet => isLowerDigit (lowerDigit (octet &&& 15)) = true)
    (by decide +kernel) octet

theorem isLowerDigit_of_mem_digits {bytes : Bytes} {octet : UInt8}
    (member : octet ∈ digits bytes) : isLowerDigit octet = true := by
  obtain ⟨source, _, written⟩ := List.mem_flatMap.mp member
  rcases List.mem_cons.mp written with same | later
  · exact same ▸ lowerDigit_high source
  · exact List.mem_singleton.mp later ▸ lowerDigit_low source

theorem isAscii_of_isLowerDigit {octet : UInt8} (digit : isLowerDigit octet = true) :
    Bytes.isAscii octet = true :=
  Bytes.of_class digit (by decide +kernel)

@[simp] theorem ofText_encode (bytes : Bytes) : Bytes.ofText (encode bytes) = digits bytes :=
  Bytes.ofText_asciiText fun _ member =>
    isAscii_of_isLowerDigit (isLowerDigit_of_mem_digits member)

theorem value_digits (octet : UInt8) :
    Percent.escaped? (lowerDigit (octet >>> 4)) (lowerDigit (octet &&& 15)) = some octet :=
  Bytes.forall_octet
    (fun octet =>
      Percent.escaped? (lowerDigit (octet >>> 4)) (lowerDigit (octet &&& 15)) = some octet)
    (by decide +kernel) octet

-- Both digits of an octet read back to it, so digits determine the octets they spell.
theorem digits_injective {left right : Bytes} (same : digits left = digits right) :
    left = right := by
  induction left generalizing right with
  | nil =>
      cases right with
      | nil => rfl
      | cons octet rest => simp [digits] at same
  | cons first rest ih =>
      cases right with
      | nil => simp [digits] at same
      | cons second others =>
          simp only [digits_cons, List.cons.injEq] at same
          obtain ⟨high, low, tail⟩ := same
          have octets := (value_digits first).symm.trans (high ▸ low ▸ value_digits second)
          rw [Option.some.inj octets, ih tail]

theorem encode_injective {left right : Bytes} (same : encode left = encode right) :
    left = right := by
  apply digits_injective
  simpa using congrArg Bytes.ofText same

end SigV4.Hex
