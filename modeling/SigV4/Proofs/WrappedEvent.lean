import Mathlib
import SigV4.Proofs.FrameStream
/-!
Events in frames. An event is encoded as a frame of its own and signed as the payload of another, so
whoever opens the outer frame finds the inner one whole: its lengths and its checksums are those of
the event, and it reads back as the event, down to the milliseconds of its timestamps. What an event
may hold is set by the widths of its length fields, and nothing longer is cut to fit them.
-/
namespace SigV4.Event
open Success

namespace Timestamp

def cut (timestamp : Timestamp) : Timestamp :=
  ⟨timestamp.seconds, timestamp.nanos / 1000000 * 1000000, by
    have bound := timestamp.nanos_lt
    omega⟩

def Fits (timestamp : Timestamp) : Prop :=
  -2 ^ 63 ≤ timestamp.millis ∧ timestamp.millis < 2 ^ 63

theorem ofMillis_millis (timestamp : Timestamp) : ofMillis timestamp.millis = timestamp.cut := by
  have bound := timestamp.nanos_lt
  simp only [ofMillis, millis, cut, mk.injEq]
  omega

theorem octets_ok {timestamp : Timestamp} {octets : Bytes}
    (written : timestamp.octets = .ok octets) : timestamp.Fits ∧ octets.length = 8 := by
  unfold Timestamp.octets at written
  split at written
  · next range =>
      cases written
      exact ⟨⟨range.1, by omega⟩, Bytes.length_bigEndian 8 _⟩
  · contradiction

theorem exists_octets {timestamp : Timestamp} (fits : timestamp.Fits) :
    ∃ octets, timestamp.octets = .ok octets := by
  have range : -9223372036854775808 ≤ timestamp.millis ∧
      timestamp.millis ≤ 9223372036854775807 := by
    unfold Fits at fits
    omega
  exact ⟨_, by rw [Timestamp.octets, if_pos range]⟩

end Timestamp

theorem sized_ok {octets written : Bytes} (fits : sized octets = .ok written) :
    octets.length ≤ maxValueLength ∧ written.length = 2 + octets.length := by
  unfold sized at fits
  split at fits
  · contradiction
  · next short =>
      cases fits
      exact ⟨Nat.le_of_not_lt short, by rw [List.length_append, Bytes.length_bigEndian]⟩

theorem exists_sized {octets : Bytes} (short : octets.length ≤ maxValueLength) :
    ∃ written, sized octets = .ok written :=
  ⟨_, by rw [sized, if_neg (Nat.not_lt.mpr short)]⟩

namespace Value

/-- Only values of no fixed width can be too long, and only timestamps too large. -/
def Fits : Value → Prop
  | .bytes value => value.length ≤ maxValueLength
  | .text value => (Bytes.ofText value).length ≤ maxValueLength
  | .timestamp value => value.Fits
  | _ => True

def size : Value → Nat
  | .bool _ => 1
  | .byte _ => 2
  | .int16 _ => 3
  | .int32 _ => 5
  | .int64 _ | .timestamp _ => 9
  | .bytes value => 3 + value.length
  | .text value => 3 + (Bytes.ofText value).length
  | .uuid _ => 17

def cut : Value → Value
  | .timestamp value => .timestamp value.cut
  | value => value

theorem received_eq_cut (value : Value) : value.received = value.cut := by
  cases value with
  | timestamp value => rw [received, cut, value.ofMillis_millis]
  | _ => rfl

theorem encode_ok {value : Value} {octets : Bytes} (encoded : value.encode = .ok octets) :
    value.Fits ∧ octets.length = value.size := by
  cases value with
  | bool value => cases value <;> cases encoded <;> exact ⟨trivial, rfl⟩
  | byte value =>
      cases encoded
      exact ⟨trivial, rfl⟩
  | int16 value =>
      cases encoded
      exact ⟨trivial, congrArg Nat.succ (Bytes.length_bigEndian 2 _)⟩
  | int32 value =>
      cases encoded
      exact ⟨trivial, congrArg Nat.succ (Bytes.length_bigEndian 4 _)⟩
  | int64 value =>
      cases encoded
      exact ⟨trivial, congrArg Nat.succ (Bytes.length_bigEndian 8 _)⟩
  | bytes value =>
      obtain ⟨written, fits, marked⟩ := bind_ok.mp encoded
      obtain ⟨short, length⟩ := sized_ok fits
      cases marked
      exact ⟨short, by rw [List.length_cons, length, size]; omega⟩
  | text value =>
      obtain ⟨written, fits, marked⟩ := bind_ok.mp encoded
      obtain ⟨short, length⟩ := sized_ok fits
      cases marked
      exact ⟨short, by rw [List.length_cons, length, size]; omega⟩
  | timestamp value =>
      obtain ⟨written, fits, marked⟩ := bind_ok.mp encoded
      obtain ⟨range, length⟩ := Timestamp.octets_ok fits
      cases marked
      exact ⟨range, by rw [List.length_cons, length, size]⟩
  | uuid value =>
      cases encoded
      exact ⟨trivial, congrArg Nat.succ (Bytes.length_bigEndian 16 _)⟩

theorem exists_encode {value : Value} (fits : value.Fits) :
    ∃ octets, value.encode = .ok octets := by
  cases value with
  | bool value => cases value <;> exact ⟨_, rfl⟩
  | bytes value =>
      obtain ⟨written, short⟩ := exists_sized fits
      exact ⟨_, bind_ok.mpr ⟨written, short, rfl⟩⟩
  | text value =>
      obtain ⟨written, short⟩ := exists_sized fits
      exact ⟨_, bind_ok.mpr ⟨written, short, rfl⟩⟩
  | timestamp value =>
      obtain ⟨written, range⟩ := Timestamp.exists_octets fits
      exact ⟨_, bind_ok.mpr ⟨written, range, rfl⟩⟩
  | _ => exact ⟨_, rfl⟩

end Value

namespace Header

structure Fits (header : Header) : Prop where
  name : (Bytes.ofText header.name).length ≤ maxNameLength
  value : header.value.Fits

def size (header : Header) : Nat := 1 + (Bytes.ofText header.name).length + header.value.size

def cut (header : Header) : Header := ⟨header.name, header.value.cut⟩

theorem encode_ok {header : Header} {octets : Bytes} (encoded : header.encode = .ok octets) :
    header.Fits ∧ octets.length = header.size := by
  obtain ⟨short, more⟩ := guard_ok.mp encoded
  obtain ⟨written, valued, joined⟩ := bind_ok.mp more
  obtain ⟨fits, length⟩ := Value.encode_ok valued
  cases joined
  refine ⟨⟨Nat.le_of_not_lt short, fits⟩, ?_⟩
  rw [size, List.length_append, List.length_cons, length]
  omega

theorem exists_encode {header : Header} (fits : header.Fits) :
    ∃ octets, header.encode = .ok octets := by
  obtain ⟨written, valued⟩ := Value.exists_encode fits.value
  exact ⟨_, guard_ok.mpr ⟨Nat.not_lt.mpr fits.name, bind_ok.mpr ⟨written, valued, rfl⟩⟩⟩

end Header

theorem encodeHeaders_ok {headers : List Header} {block : Bytes}
    (encoded : encodeHeaders headers = .ok block) :
    (∀ header ∈ headers, header.Fits) ∧ block.length = (headers.map (·.size)).sum := by
  induction headers generalizing block with
  | nil =>
      cases encoded
      exact ⟨fun _ member => absurd member List.not_mem_nil, rfl⟩
  | cons header rest ih =>
      obtain ⟨first, written, more⟩ := bind_ok.mp encoded
      obtain ⟨tail, others, joined⟩ := bind_ok.mp more
      obtain ⟨fits, length⟩ := Header.encode_ok written
      obtain ⟨restFits, restLength⟩ := ih others
      cases joined
      refine ⟨List.forall_mem_cons.mpr ⟨fits, restFits⟩, ?_⟩
      rw [List.length_append, length, restLength, List.map_cons, List.sum_cons]

theorem exists_encodeHeaders {headers : List Header} (fits : ∀ header ∈ headers, header.Fits) :
    ∃ block, encodeHeaders headers = .ok block := by
  induction headers with
  | nil => exact ⟨[], rfl⟩
  | cons header rest ih =>
      obtain ⟨headFits, restFits⟩ := List.forall_mem_cons.mp fits
      obtain ⟨first, written⟩ := Header.exists_encode headFits
      obtain ⟨tail, others⟩ := ih restFits
      exact ⟨_, bind_ok.mpr ⟨first, written, bind_ok.mpr ⟨tail, others, rfl⟩⟩⟩

namespace Message

def blockSize (message : Message) : Nat := (message.headers.map (·.size)).sum

def size (message : Message) : Nat := message.blockSize + message.payload.length + frameOverhead

structure Fits (message : Message) : Prop where
  headers : ∀ header ∈ message.headers, header.Fits
  whole : message.size ≤ maxFrameLength

def cut (message : Message) : Message := ⟨message.headers.map (·.cut), message.payload⟩

theorem received_eq_cut (message : Message) : message.received = message.cut := by
  have each : ∀ header ∈ message.headers, header.received = header.cut := by
    intro header _
    rw [Header.received, Header.cut, Value.received_eq_cut]
  rw [received, cut, List.map_congr_left each]

theorem encode_ok {message : Message} {octets : Bytes} (encoded : message.encode = .ok octets) :
    message.Fits ∧ Layout octets message.size message.blockSize := by
  obtain ⟨block, written, fits, rfl⟩ := frame_of_encode encoded
  obtain ⟨headers, length⟩ := encodeHeaders_ok written
  have layout := layout_frame fits
  rw [length] at fits layout
  exact ⟨⟨headers, fits⟩, layout⟩

theorem encode_iff {message : Message} :
    (∃ octets, message.encode = .ok octets) ↔ message.Fits := by
  constructor
  · rintro ⟨octets, encoded⟩
    exact (encode_ok encoded).1
  · intro fits
    obtain ⟨block, written⟩ := exists_encodeHeaders fits.headers
    have whole := fits.whole
    rw [size, blockSize, ← (encodeHeaders_ok written).2] at whole
    exact ⟨_, encode_of_fits written whole⟩

end Message

namespace Session

variable {session : Session} {event : Message} {clock : Clock}

theorem signEvent_encoded {payload : Bytes} (encoded : event.encode = .ok payload) :
    session.signEvent event clock = session.signFrame payload clock := by
  simp only [signEvent, encoded]

theorem signEvent_refused {error : FrameError} (refused : event.encode = .error error) :
    session.signEvent event clock = ⟨.error (.eventUnencodable error), session, clock, []⟩ := by
  simp only [signEvent, refused]

/-- A frame is as long as its payload and what is around it. -/
theorem size_signedMessage (session : Session) (time : Instant) (payload : Bytes) :
    (session.signedMessage time payload).size = payload.length + signedOverhead := by
  have signed := session.length_frameSignature time payload
  have block : (session.signedMessage time payload).blockSize = 67 := by
    calc (session.signedMessage time payload).blockSize
        = (dateBlock time ++ signatureBlock (session.frameSignature time payload)).length :=
          (encodeHeaders_ok (encode_signedHeaders time signed)).2.symm
      _ = 67 := length_signedHeaders time signed
  calc (session.signedMessage time payload).size
      = 67 + payload.length + frameOverhead := congrArg (· + payload.length + frameOverhead) block
    _ = payload.length + signedOverhead := by
      simp only [frameOverhead, signedOverhead]
      omega

theorem signFrame_iff {payload : Bytes} :
    (∃ octets, (session.signFrame payload clock).result = .ok octets) ↔
      payload.length + signedOverhead ≤ maxFrameLength := by
  constructor
  · rintro ⟨octets, given⟩
    have whole := (Message.encode_ok (signFrame_ok given).1).1.whole
    rwa [size_signedMessage] at whole
  · intro short
    rcases session.signFrame_cases payload clock with ⟨octets, _, done⟩ | ⟨long, _, _⟩
    · exact ⟨octets, by rw [done]⟩
    · exact absurd short (Nat.not_le.mpr long)

/-- An event is wrapped just if it can be encoded and leaves room for what is around it. -/
theorem signEvent_iff :
    (∃ octets, (session.signEvent event clock).result = .ok octets) ↔
      event.Fits ∧ event.size + signedOverhead ≤ maxFrameLength := by
  cases encoded : event.encode with
  | error refused =>
      have unfit : ¬ event.Fits := by
        intro fits
        obtain ⟨octets, written⟩ := Message.encode_iff.mpr fits
        rw [encoded] at written
        contradiction
      rw [signEvent_refused encoded]
      constructor
      · rintro ⟨octets, given⟩
        contradiction
      · rintro ⟨fits, _⟩
        exact absurd fits unfit
  | ok payload =>
      obtain ⟨fits, layout⟩ := Message.encode_ok encoded
      rw [signEvent_encoded encoded, ← layout.length, signFrame_iff]
      exact (and_iff_right fits).symm

/-- A wrapped event is found again in the payload of its frame: the frame itself is read, its
payload has the lengths and the checksums of a frame, and that frame is read as the event. -/
theorem signEvent_read {octets : Bytes}
    (given : (session.signEvent event clock).result = .ok octets) :
    ∃ wrapper, Message.read octets = some wrapper ∧
      Layout wrapper.payload event.size event.blockSize ∧
      Message.read wrapper.payload = some event.cut := by
  cases encoded : event.encode with
  | error refused =>
      rw [signEvent_refused encoded] at given
      contradiction
  | ok payload =>
      rw [signEvent_encoded encoded] at given
      have outer := Message.read_encode (signFrame_ok given).1
      rw [received_signedMessage] at outer
      refine ⟨session.signedMessage clock.now payload, outer, (Message.encode_ok encoded).2, ?_⟩
      calc Message.read payload = some event.received := Message.read_encode encoded
        _ = some event.cut := congrArg some event.received_eq_cut

/-- Events are wrapped whole. An event that fits the widths of its length fields, and leaves room
for the frame around it, is found in the payload of that frame with its headers in their order,
their types and values, and its payload; only its timestamps are cut. An event that does not fit
is refused before an instant is drawn, and the session stays as it was. -/
theorem event_wrapped_whole (session : Session) (event : Message) (clock : Clock) :
    ((∃ octets, (session.signEvent event clock).result = .ok octets) ↔
      event.Fits ∧ event.size + signedOverhead ≤ maxFrameLength) ∧
    (∀ octets, (session.signEvent event clock).result = .ok octets →
      ∃ wrapper, Message.read octets = some wrapper ∧
        Layout wrapper.payload event.size event.blockSize ∧
        Message.read wrapper.payload = some event.cut) ∧
    ((∃ payload, event.encode = .ok payload) ↔ event.Fits) ∧
    ∀ error, event.encode = .error error →
      session.signEvent event clock = ⟨.error (.eventUnencodable error), session, clock, []⟩ ∧
        (Fault.eventUnencodable error).kind = .requestInvalid := by
  refine ⟨signEvent_iff, fun octets given => signEvent_read given, Message.encode_iff, ?refused⟩
  intro error refused
  exact ⟨signEvent_refused refused, rfl⟩

end Session

def sighting : Message :=
  ⟨[⟨"at", .timestamp ⟨0, 1500000, by decide⟩⟩, ⟨"seen", .text "a"⟩], [1, 2, 3]⟩

def prophecy : Message := ⟨[⟨"at", .timestamp ⟨2 ^ 62, 0, by decide⟩⟩], []⟩

theorem fits_sighting : sighting.Fits ∧ sighting.size = 40 := by
  have named : Timestamp.Fits ⟨0, 1500000, by decide⟩ := by
    unfold Timestamp.Fits
    decide
  have short : (Bytes.ofText "a").length ≤ maxValueLength := by decide
  have size : sighting.size = 40 := by decide
  have headers : ∀ header ∈ sighting.headers, header.Fits := by
    simp only [sighting, List.forall_mem_cons]
    exact ⟨⟨by decide, named⟩, ⟨by decide, short⟩, fun _ none => absurd none List.not_mem_nil⟩
  exact ⟨⟨headers, by rw [size]; decide⟩, size⟩

-- The half of a millisecond is lost on the way, and the event of the far year is not sent.
theorem sighting_wrapped :
    let session : Session := ⟨⟨"key", "secret", none⟩, "us-east-1", "transcribe", "seed"⟩
    let clock : Clock := ⟨Instant.epoch, []⟩
    (∃ octets wrapper, (session.signEvent sighting clock).result = .ok octets ∧
      Message.read octets = some wrapper ∧
      Message.read wrapper.payload = some
        ⟨[⟨"at", .timestamp ⟨0, 1000000, by decide⟩⟩, ⟨"seen", .text "a"⟩], [1, 2, 3]⟩) ∧
    (∃ fault, fault.kind = .requestInvalid ∧
      session.signEvent prophecy clock = ⟨.error fault, session, clock, []⟩) := by
  intro session clock
  obtain ⟨wrapped, found, _, _⟩ := Session.event_wrapped_whole session sighting clock
  obtain ⟨_, _, _, refused⟩ := Session.event_wrapped_whole session prophecy clock
  obtain ⟨fits, size⟩ := fits_sighting
  obtain ⟨octets, given⟩ := wrapped.mpr ⟨fits, by rw [size]; decide⟩
  obtain ⟨wrapper, outer, _, inner⟩ := found octets given
  obtain ⟨stays, kind⟩ := refused _ rfl
  exact ⟨⟨octets, wrapper, given, outer, inner⟩, ⟨_, kind, stays⟩⟩

end SigV4.Event
