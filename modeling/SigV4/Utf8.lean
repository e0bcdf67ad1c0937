import SigV4.Bytes
/-!
Octets read as UTF-8. `decode` is exact and says where an ill-formed text first fails;
`decodeLossy` puts U+FFFD for every ill-formed sequence, a sequence being as long as it still
could have been the beginning of a character.
-/
namespace SigV4.Utf8

/-- Where a text stops being UTF-8. `badLength` is the length of the ill-formed sequence, or
`none` when the octets end inside a character. -/
structure Defect where
  validUpTo : Nat
  badLength : Option Nat
  deriving DecidableEq, Repr

def Defect.message (defect : Defect) : String :=
  match defect.badLength with
  | some length =>
      "invalid utf-8 sequence of " ++ toString length ++ " bytes from index "
        ++ toString defect.validUpTo
  | none => "incomplete utf-8 byte sequence from index " ++ toString defect.validUpTo

def followers (lead : UInt8) : Option (List (UInt8 × UInt8)) :=
  if lead < 0x80 then some []
  else if lead < 0xC2 then none
  else if lead < 0xE0 then some [(0x80, 0xBF)]
  else if lead = 0xE0 then some [(0xA0, 0xBF), (0x80, 0xBF)]
  else if lead = 0xED then some [(0x80, 0x9F), (0x80, 0xBF)]
  else if lead < 0xF0 then some [(0x80, 0xBF), (0x80, 0xBF)]
  else if lead = 0xF0 then some [(0x90, 0xBF), (0x80, 0xBF), (0x80, 0xBF)]
  else if lead < 0xF4 then some [(0x80, 0xBF), (0x80, 0xBF), (0x80, 0xBF)]
  else if lead = 0xF4 then some [(0x80, 0x8F), (0x80, 0xBF), (0x80, 0xBF)]
  else none

inductive Front where
  | scalar (width : Nat)
  | broken (width : Nat)
  | unfinished
  deriving DecidableEq, Repr

def follow (width : Nat) : List (UInt8 × UInt8) → Bytes → Front
  | [], _ => .scalar width
  | _ :: _, [] => .unfinished
  | (low, high) :: ranges, octet :: rest =>
      if low ≤ octet && octet ≤ high then follow (width + 1) ranges rest else .broken width

def front (lead : UInt8) (rest : Bytes) : Front :=
  match followers lead with
  | some ranges => follow 1 ranges rest
  | none => .broken 1

/-- The first defect of a text that is not UTF-8; `skip` octets belong to a character already
seen. -/
def defect (skip index : Nat) : Bytes → Defect
  | [] => ⟨index, none⟩
  | lead :: rest =>
      match skip with
      | skip + 1 => defect skip (index + 1) rest
      | 0 =>
          match front lead rest with
          | .scalar width => defect (width - 1) (index + 1) rest
          | .broken width => ⟨index, some width⟩
          | .unfinished => ⟨index, none⟩

def decode (bytes : Bytes) : Except Defect String :=
  match Bytes.text? bytes with
  | some text => .ok text
  | none => .error (defect 0 0 bytes)

def scalar (lead : UInt8) (following : Bytes) : Char :=
  let start :=
    match following.length with
    | 0 => lead.toNat
    | 1 => lead.toNat % 32
    | 2 => lead.toNat % 16
    | _ => lead.toNat % 8
  Char.ofNat (following.foldl (fun value octet => value * 64 + octet.toNat % 64) start)

def replaced (skip : Nat) : Bytes → List Char
  | [] => []
  | lead :: rest =>
      match skip with
      | skip + 1 => replaced skip rest
      | 0 =>
          match front lead rest with
          | .scalar width => scalar lead (rest.take (width - 1)) :: replaced (width - 1) rest
          | .broken width => '\uFFFD' :: replaced (width - 1) rest
          | .unfinished => ['\uFFFD']

def decodeLossy (bytes : Bytes) : String :=
  match Bytes.text? bytes with
  | some text => text
  | none => String.ofList (replaced 0 bytes)

@[simp] theorem decode_ofText (text : String) : decode (Bytes.ofText text) = .ok text := by
  simp [decode]

@[simp] theorem decodeLossy_ofText (text : String) : decodeLossy (Bytes.ofText text) = text := by
  simp [decodeLossy]

theorem ofText_of_decode {bytes : Bytes} {text : String} (decoded : decode bytes = .ok text) :
    Bytes.ofText text = bytes := by
  unfold decode at decoded
  split at decoded
  next found present => exact Except.ok.inj decoded ▸ Bytes.ofText_of_text? present
  next => contradiction

end SigV4.Utf8
