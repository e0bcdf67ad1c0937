import SigV4.Event.Session
import SigV4.Proofs.FrameReader
/-!
One signed frame. Signing never fails: every instant has a date header, and a signature is always
32 octets long. A frame has 83 octets beside its payload, so only a payload that leaves no room for
them cannot be encoded.
-/
namespace SigV4.Event
open Success

def dateHeader (time : Instant) : Header := ⟨dateName, .timestamp (.ofMillis time.millis)⟩

def signatureHeader (signature : Bytes) : Header := ⟨signatureName, .bytes signature⟩

def dateBlock (time : Instant) : Bytes :=
  5 :: Bytes.ofText dateName
    ++ 8 :: Bytes.bigEndian 8 (time.millis % 18446744073709551616).toNat

def signatureBlock (signature : Bytes) : Bytes :=
  16 :: Bytes.ofText signatureName ++ 6 :: (Bytes.bigEndian 2 signature.length ++ signature)

/-- The octets of a frame beside its payload. -/
def signedOverhead : Nat := 83

theorem Timestamp.millis_ofMillis (millis : Int) : (ofMillis millis).millis = millis := by
  simp only [ofMillis, Timestamp.millis]
  omega

theorem encode_dateHeader (time : Instant) :
    (dateHeader time).encode = .ok (dateBlock time) := by
  have low := time.not_before
  have high := time.not_after
  have nanos := time.nanos_lt
  have range : -9223372036854775808 ≤ time.millis ∧ time.millis ≤ 9223372036854775807 := by
    unfold Instant.millis
    omega
  have octets : (Timestamp.ofMillis time.millis).octets =
      .ok (Bytes.bigEndian 8 (time.millis % 18446744073709551616).toNat) := by
    rw [Timestamp.octets, Timestamp.millis_ofMillis, if_pos range]
  simp only [Header.encode, dateHeader, Value.encode, octets]
  rfl

theorem encode_dateHeaders (time : Instant) :
    encodeHeaders [dateHeader time] = .ok (dateBlock time) := by
  rw [encodeHeaders, encode_dateHeader]
  exact congrArg Except.ok (List.append_nil _)

theorem encode_signatureHeader {signature : Bytes} (length : signature.length = 32) :
    (signatureHeader signature).encode = .ok (signatureBlock signature) := by
  have fits : sized signature = .ok (Bytes.bigEndian 2 signature.length ++ signature) := by
    rw [sized, if_neg]
    simp [length, maxValueLength]
  simp only [Header.encode, signatureHeader, Value.encode, fits]
  rfl

theorem encode_signedHeaders (time : Instant) {signature : Bytes}
    (length : signature.length = 32) :
    encodeHeaders [dateHeader time, signatureHeader signature] =
      .ok (dateBlock time ++ signatureBlock signature) := by
  rw [encodeHeaders, encode_dateHeader, encodeHeaders, encode_signatureHeader length]
  exact congrArg Except.ok (congrArg (dateBlock time ++ ·) (List.append_nil _))

theorem length_signedHeaders (time : Instant) {signature : Bytes}
    (length : signature.length = 32) :
    (dateBlock time ++ signatureBlock signature).length = 67 := by
  have date : (Bytes.ofText dateName).length = 5 := by decide
  have name : (Bytes.ofText signatureName).length = 16 := by decide
  simp [dateBlock, signatureBlock, date, name, length]

-- Both sorts leave the headers where they are: a single one, and the signature after the date.
theorem sort_dateHeader (time : Instant) : sortHeaders [dateHeader time] = [dateHeader time] :=
  List.mergeSort_singleton _

theorem sort_signedHeaders (time : Instant) (signature : Bytes) :
    sortHeaders [dateHeader time, signatureHeader signature] =
      [dateHeader time, signatureHeader signature] := by
  apply List.mergeSort_of_pairwise
  have ordered : Header.le (dateHeader time) (signatureHeader signature) = true := by
    simp [Header.le, dateHeader, signatureHeader]
  simpa using ordered

namespace Session

def frameSignature (session : Session) (time : Instant) (payload : Bytes) : Bytes :=
  Signature.octets (Signature.key session.credential.secretAccessKey (session.scope time))
    (session.stringToSign time (dateBlock time) payload)

def signedMessage (session : Session) (time : Instant) (payload : Bytes) : Message :=
  ⟨[dateHeader time, signatureHeader (session.frameSignature time payload)], payload⟩

def withPrior (session : Session) (prior : String) : Session := { session with prior }

def advanced (session : Session) (time : Instant) (payload : Bytes) : Session :=
  session.withPrior (Hex.encode (session.frameSignature time payload))

def signedLog (session : Session) (time : Instant) (payload : Bytes) : List Log.Record :=
  let date := Timestamp.ofMillis time.millis
  let signature := session.frameSignature time payload
  [.debug (signedNote date signature payload previewLength),
   .trace (signedNote date signature payload payload.length)]

theorem length_frameSignature (session : Session) (time : Instant) (payload : Bytes) :
    (session.frameSignature time payload).length = 32 := Hmac.length_mac _ _

theorem sign_eq (session : Session) (time : Instant) (payload : Bytes) :
    session.sign time payload =
      .ok ⟨session.signedMessage time payload, (session.advanced time payload).prior,
        session.signedLog time payload⟩ := by
  have dated : sortHeaders [⟨dateName, .timestamp (.ofMillis time.millis)⟩] = [dateHeader time] :=
    sort_dateHeader time
  calc session.sign time payload
      = .ok ⟨⟨sortHeaders [dateHeader time, signatureHeader (session.frameSignature time payload)],
          payload⟩, (session.advanced time payload).prior, session.signedLog time payload⟩ := by
        simp only [sign, dated, encode_dateHeaders]
        rfl
    _ = .ok ⟨session.signedMessage time payload, (session.advanced time payload).prior,
          session.signedLog time payload⟩ := by
        rw [sort_signedHeaders]
        rfl

theorem signMessage_eq (session : Session) (payload : Bytes) (clock : Clock) :
    session.signMessage payload clock =
      ⟨.ok (session.signedMessage clock.now payload), session.advanced clock.now payload,
        clock.tick, session.signedLog clock.now payload⟩ := by
  rw [signMessage, sign_eq]
  rfl

theorem received_signedMessage (session : Session) (time : Instant) (payload : Bytes) :
    (session.signedMessage time payload).received = session.signedMessage time payload := by
  simp [signedMessage, Message.received, Header.received, dateHeader, signatureHeader,
    Value.received, Timestamp.millis_ofMillis]

theorem encode_signedMessage (session : Session) (time : Instant) (payload : Bytes)
    (short : payload.length + signedOverhead ≤ maxFrameLength) :
    ∃ octets, (session.signedMessage time payload).encode = .ok octets := by
  have length := session.length_frameSignature time payload
  have size := length_signedHeaders time length
  simp only [signedOverhead] at short
  refine ⟨_, encode_of_fits (encode_signedHeaders time length) ?_⟩
  rw [size]
  simp only [signedMessage, frameOverhead]
  omega

theorem signFrame_cases (session : Session) (payload : Bytes) (clock : Clock) :
    (∃ octets, Message.read octets = some (session.signedMessage clock.now payload) ∧
      session.signFrame payload clock =
        ⟨.ok octets, session.advanced clock.now payload, clock.tick,
          session.signedLog clock.now payload⟩) ∨
    (maxFrameLength < payload.length + signedOverhead ∧ ∃ error,
      session.signFrame payload clock =
        ⟨.error (.frameUnencodable error), session, clock.tick,
          session.signedLog clock.now payload⟩) := by
  simp only [signFrame, sign_eq]
  cases encoded : (session.signedMessage clock.now payload).encode with
  | ok octets =>
      left
      refine ⟨octets, ?_, rfl⟩
      rw [Message.read_encode encoded, received_signedMessage]
  | error refused =>
      right
      refine ⟨?_, refused, rfl⟩
      apply Nat.lt_of_not_le
      intro short
      obtain ⟨octets, written⟩ := session.encode_signedMessage clock.now payload short
      rw [encoded] at written
      contradiction

end Session

end SigV4.Event
