import SigV4.Hex
/-!
Percent escapes. `encode` keeps the octets of a given class and writes every other one as a
percent sign and two upper-case digits; `decode` reads escapes of either case and leaves a percent
sign that starts none as it is.
-/
namespace SigV4.Percent

def isUnreserved (octet : UInt8) : Bool :=
  Bytes.isAlphanumeric octet || Bytes.isOneOf ['-', '.', '_', '~'] octet

def isUnreservedOrSlash (octet : UInt8) : Bool :=
  isUnreserved octet || octet == '/'.toUInt8

def escape (octet : UInt8) : Bytes :=
  ['%'.toUInt8, Hex.upperDigit (octet >>> 4), Hex.upperDigit (octet &&& 15)]

def encode (keep : UInt8 → Bool) (bytes : Bytes) : Bytes :=
  bytes.flatMap fun (octet : UInt8) => if keep octet then [octet] else escape octet

def encodeText (keep : UInt8 → Bool) (text : String) : String :=
  Bytes.asciiText (encode keep (Bytes.ofText text))

def escaped? (high low : UInt8) : Option UInt8 :=
  match Hex.value? high, Hex.value? low with
  | some high, some low => some (high * 16 + low)
  | _, _ => none

def decode : Bytes → Bytes
  | [] => []
  | [octet] => [octet]
  | [first, second] => [first, second]
  | mark :: high :: low :: rest =>
      if mark = '%'.toUInt8 then
        match escaped? high low with
        | some octet => octet :: decode rest
        | none => mark :: decode (high :: low :: rest)
      else mark :: decode (high :: low :: rest)

theorem decode_cons_of_ne {octet : UInt8} (plain : octet ≠ '%'.toUInt8) (rest : Bytes) :
    decode (octet :: rest) = octet :: decode rest := by
  match rest with
  | [] => rfl
  | [_] => rfl
  | _ :: _ :: _ => rw [decode, if_neg plain]

theorem escaped?_upperDigits (octet : UInt8) :
    escaped? (Hex.upperDigit (octet >>> 4)) (Hex.upperDigit (octet &&& 15)) = some octet :=
  Bytes.forall_octet
    (fun octet =>
      escaped? (Hex.upperDigit (octet >>> 4)) (Hex.upperDigit (octet &&& 15)) = some octet)
    (by decide +kernel) octet

theorem decode_escape (octet : UInt8) (rest : Bytes) :
    decode (escape octet ++ rest) = octet :: decode rest := by
  simp [escape, decode, escaped?_upperDigits octet]

/-- Reading undoes writing, as long as the percent sign itself is escaped. -/
theorem decode_encode {keep : UInt8 → Bool} (marked : keep '%'.toUInt8 = false) (bytes : Bytes) :
    decode (encode keep bytes) = bytes := by
  induction bytes with
  | nil => rfl
  | cons octet rest ih =>
      rw [encode, List.flatMap_cons, ← encode]
      by_cases kept : keep octet = true
      · have plain : octet ≠ '%'.toUInt8 := fun same => by simp [same, marked] at kept
        rw [if_pos kept, List.singleton_append, decode_cons_of_ne plain, ih]
      · rw [if_neg kept, decode_escape, ih]

end SigV4.Percent
