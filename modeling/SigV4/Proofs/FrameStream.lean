import SigV4.Proofs.FrameChain
/-!
Frames on the wire. The frames of a session are sent one after another with nothing between them.
Each says in front how long it is, so a receiver who knows nothing of the session takes them apart
again, and finds in each when it was signed, its signature and its payload.
-/
namespace SigV4.Event
open Success

/-- Where the numbers of a frame stand: both lengths in front, the checksum of these two after
them, and the checksum of all before it at the end. -/
structure Layout (octets : Bytes) (whole block : Nat) : Prop where
  length : octets.length = whole
  total : number (octets.take 4) = whole
  headers : number ((octets.drop 4).take 4) = block
  lengthsSum : (octets.drop 8).take 4 = checksumOctets (octets.take 8)
  sum : octets.drop (whole - 4) = checksumOctets (octets.take (whole - 4))

structure Record where
  millis : Int
  signature : Bytes
  payload : Bytes
  deriving DecidableEq

def Record.ofMessage? (message : Message) : Option Record :=
  match message.headers with
  | [⟨":date", .timestamp date⟩, ⟨":chunk-signature", .bytes signature⟩] =>
      if signature.length = 32 then some ⟨date.millis, signature, message.payload⟩ else none
  | _ => none

def takeFrame (stream : Bytes) : Option (Bytes × Bytes) := do
  let (length, _) ← takeNumber 4 stream
  takeOctets length stream

def readRecords (stream : Bytes) : Option (List Record) :=
  if stream = [] then some []
  else
    match takeFrame stream with
    | some (octets, rest) =>
        if rest.length < stream.length then do
          let record ← Record.ofMessage? (← Message.read octets)
          return record :: (← readRecords rest)
        else none
    | none => none
termination_by stream.length

theorem layout_frame {block payload : Bytes}
    (fits : block.length + payload.length + frameOverhead ≤ maxFrameLength) :
    Layout (frame block payload) (block.length + payload.length + frameOverhead) block.length := by
  have eight := length_lengthOctets block payload
  have spelled : frame block payload = lengthOctets block payload ++
      (checksumOctets (lengthOctets block payload) ++
        (block ++ (payload ++ checksumOctets (checkedOctets block payload)))) := by
    simp only [frame_eq, checkedOctets, List.append_assoc]
  have lengths : (frame block payload).take 8 = lengthOctets block payload := by
    rw [spelled]
    exact List.take_left' eight
  have checked := length_checkedOctets block payload
  rw [length_frame] at checked
  refine ⟨length_frame block payload, ?total, ?headers, ?lengthsSum, ?sum⟩
  case total =>
    rw [← number_total fits, ← lengths, List.take_take]
    rfl
  case headers =>
    rw [← number_block fits, ← lengths, List.drop_take]
  case lengthsSum =>
    rw [lengths, spelled, List.drop_left' eight]
    exact List.take_left' (length_checksumOctets _)
  case sum =>
    rw [frame_eq, List.drop_left' checked, List.take_left' checked]

theorem takeFrame_joined {octets : Bytes} {whole block : Nat} (layout : Layout octets whole block)
    (long : 4 ≤ whole) (rest : Bytes) : takeFrame (octets ++ rest) = some (octets, rest) := by
  have bound : 4 ≤ octets.length := layout.length ▸ long
  have front : takeNumber 4 (octets ++ rest) =
      some (whole, (octets ++ rest).drop 4) := by
    have reach : 4 ≤ (octets ++ rest).length := by
      rw [List.length_append]
      omega
    rw [takeNumber, takeOctets, if_pos reach, Option.map_some, List.take_append_of_le_length bound,
      ← layout.total]
  rw [takeFrame, front]
  exact takeOctets_joined layout.length rest

namespace Session

def record (session : Session) (time : Instant) (payload : Bytes) : Record :=
  ⟨time.millis, session.frameSignature time payload, payload⟩

theorem signFrame_ok {session : Session} {payload octets : Bytes} {clock : Clock}
    (given : (session.signFrame payload clock).result = .ok octets) :
    (session.signedMessage clock.now payload).encode = .ok octets ∧
      (session.signFrame payload clock).session = session.advanced clock.now payload := by
  simp only [signFrame, sign_eq] at given ⊢
  cases encoded : (session.signedMessage clock.now payload).encode with
  | ok written =>
      rw [encoded] at given
      exact ⟨congrArg Except.ok (Except.ok.inj given), rfl⟩
  | error refused =>
      rw [encoded] at given
      contradiction

theorem layout_signedMessage {session : Session} {time : Instant} {payload octets : Bytes}
    (encoded : (session.signedMessage time payload).encode = .ok octets) :
    Layout octets (83 + payload.length) 67 := by
  obtain ⟨block, written, fits, rfl⟩ := frame_of_encode encoded
  have signed := encode_signedHeaders time (session.length_frameSignature time payload)
  have size := length_signedHeaders time (session.length_frameSignature time payload)
  cases signed.symm.trans written
  have layout := layout_frame fits
  rw [size] at layout
  have total : 67 + payload.length + frameOverhead = 83 + payload.length := by
    simp only [frameOverhead]
    omega
  exact total ▸ layout

theorem record_signedMessage (session : Session) (time : Instant) (payload : Bytes) :
    Record.ofMessage? (session.signedMessage time payload) =
      some (session.record time payload) := by
  have length := session.length_frameSignature time payload
  simp only [Record.ofMessage?, signedMessage, dateHeader, dateName, signatureHeader,
    signatureName, length, if_true, Timestamp.millis_ofMillis, record]

end Session

/-- The payload that a call sends in a frame. A message is not sent, and neither is an event that
has no encoding. -/
def Call.framed? (call : Call) : Option Bytes :=
  match call with
  | .message _ => none
  | call => call.payload?

def Step.frame? (step : Step) : Option (Step × Bytes) :=
  match step.outcome.result with
  | .ok (.frame octets) => some (step, octets)
  | _ => none

def Session.frames (session : Session) (clock : Clock) (calls : List Call) :
    List (Step × Bytes) :=
  (session.steps clock calls).filterMap (·.frame?)

structure Sends (step : Step) (octets : Bytes) (record : Record) : Prop where
  layout : Layout octets (83 + record.payload.length) 67
  read : (Message.read octets).bind Record.ofMessage? = some record
  millis : record.millis = step.time.millis
  payload : step.call.framed? = some record.payload
  signature : record.signature.length = 32
  chained : step.outcome.session.prior = Hex.encode record.signature

theorem Call.perform_framed {call : Call} {payload : Bytes} (framed : call.framed? = some payload)
    (session : Session) (clock : Clock) :
    call.perform session clock = (session.signFrame payload clock).map .frame := by
  cases call with
  | message => contradiction
  | frame => exact Option.some.inj framed ▸ rfl
  | finish => exact Option.some.inj framed ▸ rfl
  | event event =>
      cases encoded : event.encode with
      | ok written =>
          simp only [framed?, payload?, encoded, Except.toOption, Option.some.injEq] at framed
          simp only [perform, Session.signEvent, encoded, framed]
      | error refused =>
          simp only [framed?, payload?, encoded, Except.toOption] at framed
          contradiction

theorem Call.framed_of_perform {call : Call} {session : Session} {clock : Clock} {octets : Bytes}
    (given : (call.perform session clock).result = .ok (.frame octets)) :
    ∃ payload, call.framed? = some payload := by
  cases call with
  | message payload =>
      rw [perform_message] at given
      exact nomatch Except.ok.inj given
  | frame payload => exact ⟨payload, rfl⟩
  | finish => exact ⟨[], rfl⟩
  | event event =>
      cases encoded : event.encode with
      | ok written => exact ⟨written, by simp only [framed?, payload?, encoded, Except.toOption]⟩
      | error refused =>
          simp only [perform, Session.signEvent, encoded] at given
          contradiction

theorem Step.frame?_eq_some {step source : Step} {octets : Bytes}
    (sends : step.frame? = some (source, octets)) :
    source = step ∧ step.outcome.result = .ok (.frame octets) := by
  unfold frame? at sends
  split at sends
  · next found =>
      cases sends
      exact ⟨rfl, found⟩
  · contradiction

/-- What a step sends is read back as what it says. -/
theorem exists_record {step : Step} {octets : Bytes}
    (given : step.outcome.result = .ok (.frame octets)) :
    ∃ record, Sends step octets record := by
  obtain ⟨payload, framed⟩ := Call.framed_of_perform given
  have performed : step.outcome = (step.session.signFrame payload step.clock).map .frame :=
    Call.perform_framed framed step.session step.clock
  have signed : (step.session.signFrame payload step.clock).result = .ok octets := by
    rw [performed] at given
    obtain ⟨written, result, same⟩ := map_ok.mp given
    rw [result, Emission.frame.inj same]
  obtain ⟨encoded, advanced⟩ := Session.signFrame_ok signed
  refine ⟨step.session.record step.time payload,
    ⟨?layout, ?read, rfl, framed, ?signature, ?chained⟩⟩
  case layout => exact Session.layout_signedMessage encoded
  case read =>
    rw [Message.read_encode encoded, Session.received_signedMessage]
    exact step.session.record_signedMessage step.time payload
  case signature => exact step.session.length_frameSignature step.time payload
  case chained =>
    rw [performed]
    exact congrArg Session.prior advanced

theorem readRecords_cons {step : Step} {octets : Bytes} {record : Record}
    (sends : Sends step octets record) (rest : Bytes) :
    readRecords (octets ++ rest) = (readRecords rest).map (record :: ·) := by
  have size := sends.layout.length
  have started : octets ++ rest ≠ [] := by
    intro empty
    rw [(List.append_eq_nil_iff.mp empty).1, List.length_nil] at size
    omega
  have shorter : rest.length < (octets ++ rest).length := by
    rw [List.length_append]
    omega
  obtain ⟨message, found, meant⟩ := Option.bind_eq_some_iff.mp sends.read
  rw [readRecords, if_neg started, takeFrame_joined sends.layout (by omega)]
  simp only [shorter, if_true, found, meant, Option.bind_eq_bind, Option.bind_some]
  cases readRecords rest with
  | none => rfl
  | some records => rfl

-- Induction on the frames: the first of them is as long as it says, so it is taken off the stream
-- whole, whatever comes after it.
theorem readRecords_sent {frames : List (Step × Bytes)} {records : List Record}
    (sent : List.Forall₂ (fun frame record => Sends frame.1 frame.2 record) frames records) :
    readRecords (frames.flatMap (·.2)) = some records := by
  induction sent with
  | nil => rw [List.flatMap_nil, readRecords, if_pos rfl]
  | cons first _ ih =>
      rw [List.flatMap_cons, readRecords_cons first, ih]
      rfl

theorem exists_records (steps : List Step) :
    ∃ records, List.Forall₂ (fun frame record => Sends frame.1 frame.2 record)
      (steps.filterMap (·.frame?)) records := by
  induction steps with
  | nil => exact ⟨[], .nil⟩
  | cons step rest ih =>
      obtain ⟨records, others⟩ := ih
      cases found : step.frame? with
      | none => exact ⟨records, by rwa [List.filterMap_cons_none found]⟩
      | some frame =>
          obtain ⟨source, octets⟩ := frame
          obtain ⟨rfl, given⟩ := Step.frame?_eq_some found
          obtain ⟨record, sends⟩ := exists_record given
          refine ⟨record :: records, ?_⟩
          rw [List.filterMap_cons_some found]
          exact .cons sends others

theorem frame_of_short {step : Step} {payload : Bytes}
    (framed : step.call.framed? = some payload)
    (short : payload.length + 83 ≤ maxFrameLength) : ∃ octets, step.frame? = some (step, octets) := by
  have performed : step.outcome = (step.session.signFrame payload step.clock).map .frame :=
    Call.perform_framed framed step.session step.clock
  rcases step.session.signFrame_cases payload step.clock with ⟨octets, _, done⟩ | ⟨long, _, _⟩
  · rw [done] at performed
    refine ⟨octets, ?_⟩
    rw [Step.frame?, performed]
    rfl
  · exact absurd short (Nat.not_le.mpr long)

/-- All frames of a run, one after another, are read back to the last octet, as what their steps
say; and every payload that leaves room for a frame has one. -/
theorem stream_reads_back (session : Session) (clock : Clock) (calls : List Call) :
    (∃ records,
      List.Forall₂ (fun frame record => Sends frame.1 frame.2 record)
        (session.frames clock calls) records ∧
      readRecords ((session.frames clock calls).flatMap (·.2)) = some records) ∧
    ∀ step ∈ session.steps clock calls, ∀ payload, step.call.framed? = some payload →
      payload.length + 83 ≤ maxFrameLength →
        ∃ octets, (step, octets) ∈ session.frames clock calls := by
  obtain ⟨records, sent⟩ := exists_records (session.steps clock calls)
  refine ⟨⟨records, sent, readRecords_sent sent⟩, ?_⟩
  intro step member payload framed short
  obtain ⟨octets, found⟩ := frame_of_short framed short
  exact ⟨octets, List.mem_filterMap.mpr ⟨step, member, found⟩⟩

end SigV4.Event
