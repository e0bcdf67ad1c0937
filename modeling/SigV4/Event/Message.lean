import SigV4.Crc32
import SigV4.Event.Timestamp
/-!
Event messages and their frames. A frame is its total length, the length of its header block, a
checksum of these two, the header block, the payload, and a checksum of all before; numbers are
big endian. `encode` refuses what the length fields cannot say.
-/
namespace SigV4.Event

inductive Value where
  | bool (value : Bool)
  | byte (value : Int8)
  | int16 (value : Int16)
  | int32 (value : Int32)
  | int64 (value : Int64)
  | bytes (value : Bytes)
  | text (value : String)
  | timestamp (value : Timestamp)
  | uuid (value : BitVec 128)
  deriving DecidableEq

structure Header where
  name : String
  value : Value
  deriving DecidableEq

structure Message where
  headers : List Header
  payload : Bytes
  deriving DecidableEq

inductive FrameError where
  | nameTooLong
  | valueTooLong
  | timestampTooLarge (timestamp : Timestamp)
  | headersTooLong
  | payloadTooLong
  | messageTooLong
  deriving DecidableEq, Repr

def FrameError.message : FrameError → String
  | .nameTooLong => "invalid header name length"
  | .valueTooLong => "header value too long to fit in event stream frame"
  | .timestampTooLarge timestamp =>
      "timestamp value " ++ timestamp.text ++ " is too large to fit into an i64"
  | .headersTooLong => "headers too long to fit in event stream frame"
  | .payloadTooLong => "payload too long to fit in event stream frame"
  | .messageTooLong => "message too long to fit in event stream frame"

def maxNameLength : Nat := 255

def maxValueLength : Nat := 65535

def maxFrameLength : Nat := 4294967295

/-- A value whose own length is written in two octets. -/
def sized (octets : Bytes) : Except FrameError Bytes :=
  if octets.length > maxValueLength then .error .valueTooLong
  else .ok (Bytes.bigEndian 2 octets.length ++ octets)

/-- Two's complement in eight octets. -/
def Timestamp.octets (timestamp : Timestamp) : Except FrameError Bytes :=
  if -9223372036854775808 ≤ timestamp.millis ∧ timestamp.millis ≤ 9223372036854775807 then
    .ok (Bytes.bigEndian 8 (timestamp.millis % 18446744073709551616).toNat)
  else .error (.timestampTooLarge timestamp)

def Value.encode : Value → Except FrameError Bytes
  | .bool true => .ok [0]
  | .bool false => .ok [1]
  | .byte value => .ok [2, value.toUInt8]
  | .int16 value => .ok (3 :: Bytes.bigEndian 2 value.toUInt16.toNat)
  | .int32 value => .ok (4 :: Bytes.bigEndian 4 value.toUInt32.toNat)
  | .int64 value => .ok (5 :: Bytes.bigEndian 8 value.toUInt64.toNat)
  | .bytes value => do return 6 :: (← sized value)
  | .text value => do return 7 :: (← sized (Bytes.ofText value))
  | .timestamp value => do return 8 :: (← value.octets)
  | .uuid value => .ok (9 :: Bytes.bigEndian 16 value.toNat)

def Header.encode (header : Header) : Except FrameError Bytes := do
  let name := Bytes.ofText header.name
  if name.length > maxNameLength then throw .nameTooLong
  return UInt8.ofNat name.length :: name ++ (← header.value.encode)

def encodeHeaders : List Header → Except FrameError Bytes
  | [] => .ok []
  | header :: rest => do
      let first ← header.encode
      return first ++ (← encodeHeaders rest)

def checksumOctets (octets : Bytes) : Bytes := Bytes.bigEndian 4 (Crc32.checksum octets).toNat

/-- The octets of a frame beside its headers and payload. -/
def frameOverhead : Nat := 16

def frame (block payload : Bytes) : Bytes :=
  let lengths :=
    Bytes.bigEndian 4 (block.length + payload.length + frameOverhead)
      ++ Bytes.bigEndian 4 block.length
  let checked := lengths ++ checksumOctets lengths ++ block ++ payload
  checked ++ checksumOctets checked

def Message.encode (message : Message) : Except FrameError Bytes := do
  let block ← encodeHeaders message.headers
  if block.length > maxFrameLength then throw .headersTooLong
  if message.payload.length > maxFrameLength then throw .payloadTooLong
  if block.length + message.payload.length + frameOverhead > maxFrameLength then
    throw .messageTooLong
  return frame block message.payload

end SigV4.Event
