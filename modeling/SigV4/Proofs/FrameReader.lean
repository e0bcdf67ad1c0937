import Mathlib.Algebra.Group.Nat.Defs
import Mathlib.Algebra.Group.Int.Defs
import SigV4.Event.Message
import SigV4.Proofs.Success
/-!
Frames read back. `Message.read` takes a frame apart as a receiver would: it trusts no length and
no checksum, and gives a message only if all of the octets are accounted for. What `encode` writes
it reads as it was, except that timestamps come back cut to milliseconds.
-/
namespace SigV4.Event
open Success

def number (octets : Bytes) : Nat :=
  octets.foldl (fun value octet => value * 256 + octet.toNat) 0

/-- The number below zero that two's complement spells in so many octets, or the plain one. -/
def signed (width value : Nat) : Int :=
  if 2 * value < 256 ^ width then value else (value : Int) - 256 ^ width

def takeOctets (count : Nat) (octets : Bytes) : Option (Bytes × Bytes) :=
  if count ≤ octets.length then some (octets.take count, octets.drop count) else none

def takeNumber (width : Nat) (octets : Bytes) : Option (Nat × Bytes) :=
  (takeOctets width octets).map fun (front, rest) => (number front, rest)

def takeSized (octets : Bytes) : Option (Bytes × Bytes) := do
  let (length, rest) ← takeNumber 2 octets
  takeOctets length rest

def takeValue : Bytes → Option (Value × Bytes)
  | 0 :: rest => some (.bool true, rest)
  | 1 :: rest => some (.bool false, rest)
  | 2 :: octet :: rest => some (.byte octet.toInt8, rest)
  | 3 :: rest => (takeNumber 2 rest).map fun (value, rest) =>
      (.int16 (UInt16.ofNat value).toInt16, rest)
  | 4 :: rest => (takeNumber 4 rest).map fun (value, rest) =>
      (.int32 (UInt32.ofNat value).toInt32, rest)
  | 5 :: rest => (takeNumber 8 rest).map fun (value, rest) =>
      (.int64 (UInt64.ofNat value).toInt64, rest)
  | 6 :: rest => (takeSized rest).map fun (value, rest) => (.bytes value, rest)
  | 7 :: rest => do
      let (octets, rest) ← takeSized rest
      return (.text (← Bytes.text? octets), rest)
  | 8 :: rest => (takeNumber 8 rest).map fun (value, rest) =>
      (.timestamp (Timestamp.ofMillis (signed 8 value)), rest)
  | 9 :: rest => (takeNumber 16 rest).map fun (value, rest) =>
      (.uuid (BitVec.ofNat 128 value), rest)
  | _ => none

def takeHeader : Bytes → Option (Header × Bytes)
  | [] => none
  | length :: rest => do
      let (name, rest) ← takeOctets length.toNat rest
      let (value, rest) ← takeValue rest
      return (⟨← Bytes.text? name, value⟩, rest)

/-- Headers that fill a block exactly. A header that took nothing would be read for ever. -/
def readHeaders (block : Bytes) : Option (List Header) :=
  if block = [] then some []
  else
    match takeHeader block with
    | some (header, rest) =>
        if rest.length < block.length then (readHeaders rest).map (header :: ·) else none
    | none => none
termination_by block.length

def Message.read (octets : Bytes) : Option Message := do
  let (lengths, rest) ← takeOctets 8 octets
  let (lengthsSum, rest) ← takeOctets 4 rest
  let (block, rest) ← takeOctets (number (lengths.drop 4)) rest
  let (payload, sum) ← takeOctets (rest.length - 4) rest
  let checked := octets.take (octets.length - 4)
  if number (lengths.take 4) = octets.length ∧ lengthsSum = checksumOctets lengths ∧
      sum = checksumOctets checked then
    return ⟨← readHeaders block, payload⟩
  else none

theorem takeOctets_joined {count : Nat} {front : Bytes} (length : front.length = count)
    (rest : Bytes) : takeOctets count (front ++ rest) = some (front, rest) := by
  simp [takeOctets, ← length]

theorem number_bigEndian {width value : Nat} (bound : value < 256 ^ width) :
    number (Bytes.bigEndian width value) = value := by
  induction width generalizing value with
  | zero =>
      have none : value = 0 := by simpa using bound
      simp [none, Bytes.bigEndian, number]
  | succ width ih =>
      have high : value / 256 < 256 ^ width := by
        apply Nat.div_lt_of_lt_mul
        rwa [Nat.pow_succ, Nat.mul_comm] at bound
      have front := ih high
      rw [number] at front
      rw [Bytes.bigEndian, number, List.foldl_append, front, List.foldl_cons, List.foldl_nil,
        UInt8.toNat_ofNat']
      exact Nat.div_add_mod' value 256

theorem takeNumber_bigEndian {width value : Nat} (bound : value < 256 ^ width) (rest : Bytes) :
    takeNumber width (Bytes.bigEndian width value ++ rest) = some (value, rest) := by
  have taken := takeOctets_joined (Bytes.length_bigEndian width value) rest
  simp only [takeNumber, taken, Option.map_some, number_bigEndian bound]

theorem takeSized_sized {octets written : Bytes} (fits : sized octets = .ok written)
    (rest : Bytes) : takeSized (written ++ rest) = some (octets, rest) := by
  unfold sized at fits
  split at fits
  · contradiction
  · next short =>
      have bound : octets.length < 256 ^ 2 := by simp only [maxValueLength] at short; omega
      rw [← Except.ok.inj fits, List.append_assoc, takeSized, takeNumber_bigEndian bound]
      exact takeOctets_joined rfl rest

theorem signed_octets {value : Int} (low : -9223372036854775808 ≤ value)
    (high : value ≤ 9223372036854775807) :
    signed 8 (value % 18446744073709551616).toNat = value := by
  unfold signed
  split <;> omega

/-- A value as it comes back: frames hold no less of a timestamp than its milliseconds. -/
def Value.received : Value → Value
  | .timestamp moment => .timestamp (Timestamp.ofMillis moment.millis)
  | value => value

def Header.received (header : Header) : Header := ⟨header.name, header.value.received⟩

theorem takeValue_encode {value : Value} {octets : Bytes} (encoded : value.encode = .ok octets)
    (rest : Bytes) : takeValue (octets ++ rest) = some (value.received, rest) := by
  cases value with
  | bool value => cases value <;> cases encoded <;> rfl
  | byte value =>
      cases encoded
      simp [takeValue, Value.received]
  | int16 value =>
      cases encoded
      have bound : value.toUInt16.toNat < 256 ^ 2 := value.toUInt16.toNat_lt
      simp only [List.cons_append, takeValue, takeNumber_bigEndian bound, Option.map_some,
        UInt16.ofNat_toNat, Int16.toInt16_toUInt16, Value.received]
  | int32 value =>
      cases encoded
      have bound : value.toUInt32.toNat < 256 ^ 4 := value.toUInt32.toNat_lt
      simp only [List.cons_append, takeValue, takeNumber_bigEndian bound, Option.map_some,
        UInt32.ofNat_toNat, Int32.toInt32_toUInt32, Value.received]
  | int64 value =>
      cases encoded
      have bound : value.toUInt64.toNat < 256 ^ 8 := value.toUInt64.toNat_lt
      simp only [List.cons_append, takeValue, takeNumber_bigEndian bound, Option.map_some,
        UInt64.ofNat_toNat, Int64.toInt64_toUInt64, Value.received]
  | bytes value =>
      obtain ⟨written, fits, marked⟩ := bind_ok.mp encoded
      cases marked
      simp [takeValue, takeSized_sized fits, Value.received]
  | text value =>
      obtain ⟨written, fits, marked⟩ := bind_ok.mp encoded
      cases marked
      simp [takeValue, takeSized_sized fits, Value.received]
  | timestamp value =>
      obtain ⟨written, fits, marked⟩ := bind_ok.mp encoded
      cases marked
      unfold Timestamp.octets at fits
      split at fits
      · next range =>
          cases fits
          have bound : (value.millis % 18446744073709551616).toNat < 256 ^ 8 := by omega
          simp [takeValue, takeNumber_bigEndian bound, signed_octets range.1 range.2,
            Value.received]
      · contradiction
  | uuid value =>
      cases encoded
      have bound : value.toNat < 256 ^ 16 := value.isLt
      simp [takeValue, takeNumber_bigEndian bound, Value.received]

theorem takeHeader_encode {header : Header} {octets : Bytes} (encoded : header.encode = .ok octets)
    (rest : Bytes) : takeHeader (octets ++ rest) = some (header.received, rest) := by
  unfold Header.encode at encoded
  simp only at encoded
  split at encoded
  · contradiction
  · next short =>
      obtain ⟨value, written, joined⟩ := bind_ok.mp encoded
      cases joined
      have width : (UInt8.ofNat (Bytes.ofText header.name).length).toNat =
          (Bytes.ofText header.name).length := by
        simp only [maxNameLength] at short
        rw [UInt8.toNat_ofNat']
        omega
      simp only [List.cons_append, List.append_assoc, takeHeader, width, takeOctets_joined rfl,
        Option.bind_eq_bind, Option.bind_some, takeValue_encode written, Bytes.text?_ofText,
        Header.received]
      rfl

theorem readHeaders_encode {headers : List Header} {block : Bytes}
    (encoded : encodeHeaders headers = .ok block) :
    readHeaders block = some (headers.map (·.received)) := by
  induction headers generalizing block with
  | nil =>
      cases encoded
      rw [readHeaders, if_pos rfl, List.map_nil]
  | cons header rest ih =>
      obtain ⟨first, written, more⟩ := bind_ok.mp encoded
      obtain ⟨tail, others, joined⟩ := bind_ok.mp more
      cases joined
      have taken := takeHeader_encode written tail
      have full : first ≠ [] := by
        intro empty
        have nothing := takeHeader_encode written []
        rw [empty] at nothing
        contradiction
      have positive := List.length_pos_iff.mpr full
      have shorter : tail.length < (first ++ tail).length := by
        rw [List.length_append]
        omega
      have started : first ++ tail ≠ [] := fun empty => full (List.append_eq_nil_iff.mp empty).1
      rw [readHeaders, if_neg started, taken]
      simp only [shorter, if_true, ih others, Option.map_some, List.map_cons]

def Message.received (message : Message) : Message :=
  ⟨message.headers.map (·.received), message.payload⟩

theorem frame_of_encode {message : Message} {octets : Bytes}
    (encoded : message.encode = .ok octets) :
    ∃ block, encodeHeaders message.headers = .ok block ∧
      block.length + message.payload.length + frameOverhead ≤ maxFrameLength ∧
      octets = frame block message.payload := by
  obtain ⟨block, written, more⟩ := bind_ok.mp encoded
  obtain ⟨_, more⟩ := guard_ok.mp more
  obtain ⟨_, more⟩ := guard_ok.mp more
  obtain ⟨fits, more⟩ := guard_ok.mp more
  exact ⟨block, written, Nat.le_of_not_lt fits, (Except.ok.inj more).symm⟩

theorem encode_of_fits {message : Message} {block : Bytes}
    (written : encodeHeaders message.headers = .ok block)
    (fits : block.length + message.payload.length + frameOverhead ≤ maxFrameLength) :
    message.encode = .ok (frame block message.payload) := by
  apply bind_ok.mpr
  refine ⟨block, written, ?_⟩
  apply guard_ok.mpr
  refine ⟨by omega, ?_⟩
  apply guard_ok.mpr
  refine ⟨by omega, ?_⟩
  apply guard_ok.mpr
  exact ⟨Nat.not_lt.mpr fits, rfl⟩

theorem length_frame (block payload : Bytes) :
    (frame block payload).length = block.length + payload.length + frameOverhead := by
  simp only [frame, checksumOctets, frameOverhead, List.length_append, Bytes.length_bigEndian]
  omega

def lengthOctets (block payload : Bytes) : Bytes :=
  Bytes.bigEndian 4 (block.length + payload.length + frameOverhead)
    ++ Bytes.bigEndian 4 block.length

def checkedOctets (block payload : Bytes) : Bytes :=
  lengthOctets block payload ++ checksumOctets (lengthOctets block payload) ++ block ++ payload

theorem frame_eq (block payload : Bytes) :
    frame block payload =
      checkedOctets block payload ++ checksumOctets (checkedOctets block payload) :=
  rfl

theorem length_checksumOctets (octets : Bytes) : (checksumOctets octets).length = 4 :=
  Bytes.length_bigEndian 4 _

theorem length_lengthOctets (block payload : Bytes) : (lengthOctets block payload).length = 8 := by
  simp [lengthOctets]

theorem length_checkedOctets (block payload : Bytes) :
    (checkedOctets block payload).length = (frame block payload).length - 4 := by
  rw [frame_eq, List.length_append, length_checksumOctets, Nat.add_sub_cancel]

section Lengths

variable {block payload : Bytes}
  (fits : block.length + payload.length + frameOverhead ≤ maxFrameLength)
include fits

theorem number_total :
    number ((lengthOctets block payload).take 4) = block.length + payload.length + frameOverhead := by
  have front : (lengthOctets block payload).take 4 =
      Bytes.bigEndian 4 (block.length + payload.length + frameOverhead) :=
    List.take_left' (Bytes.length_bigEndian 4 _)
  simp only [maxFrameLength] at fits
  rw [front, number_bigEndian (by omega)]

theorem number_block : number ((lengthOctets block payload).drop 4) = block.length := by
  have back : (lengthOctets block payload).drop 4 = Bytes.bigEndian 4 block.length :=
    List.drop_left' (Bytes.length_bigEndian 4 _)
  simp only [frameOverhead, maxFrameLength] at fits
  rw [back, number_bigEndian (by omega)]

end Lengths

/-- Reading a frame gives the message that was written. -/
theorem Message.read_encode {message : Message} {octets : Bytes}
    (encoded : message.encode = .ok octets) : read octets = some message.received := by
  obtain ⟨block, written, fits, rfl⟩ := frame_of_encode encoded
  let lengths := lengthOctets block message.payload
  let checked := checkedOctets block message.payload
  have spelled : frame block message.payload = lengths ++ (checksumOctets lengths ++
      (block ++ (message.payload ++ checksumOctets checked))) := by
    simp only [frame_eq, checkedOctets, lengths, checked, List.append_assoc]
  have before : (frame block message.payload).take
      ((frame block message.payload).length - 4) = checked :=
    List.take_left' (length_checkedOctets block message.payload)
  have rest : (message.payload ++ checksumOctets checked).length - 4 = message.payload.length := by
    rw [List.length_append, length_checksumOctets, Nat.add_sub_cancel]
  have total := (number_total fits).trans (length_frame block message.payload).symm
  unfold read
  rw [before, spelled]
  simp only [takeOctets_joined (length_lengthOctets block message.payload),
    takeOctets_joined (length_checksumOctets lengths), number_block fits, takeOctets_joined rfl,
    rest, Option.bind_eq_bind, Option.bind_some, lengths]
  rw [← spelled]
  simp only [total, readHeaders_encode written, and_self, if_true, Option.bind_some]
  rfl

end SigV4.Event
