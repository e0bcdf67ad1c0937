import SigV4.Proofs.DateText
import SigV4.Proofs.FrameBinding
/-!
The date that a frame carries. It counts milliseconds and the signature covers a written time, and a
receiver has only the count. Read back, it names the second that was signed, except for a leap second:
its milliseconds run on into the next one, which has another text and, at midnight, another day.
-/
namespace SigV4

namespace Instant

def ofMillis? (millis : Int) : Option Instant :=
  ofUnix? (millis / 1000) ((millis % 1000).toNat * 1000000)

variable {time heard : Instant}

theorem ofUnix?_some {seconds : Int} {nanos : Nat} (read : ofUnix? seconds nanos = some heard) :
    heard.seconds = seconds ∧ heard.nanos = nanos := by
  unfold ofUnix? at read
  split at read
  · cases read
    exact ⟨rfl, rfl⟩
  · contradiction

/-- Fractions of a millisecond are lost, and a leap second is heard as the second after it. -/
theorem ofMillis?_millis (read : ofMillis? time.millis = some heard) :
    heard.seconds = time.seconds + (if time.isLeap then 1 else 0) ∧ heard.isLeap = false ∧
      heard.millis = time.millis := by
  obtain ⟨seconds, nanos⟩ := ofUnix?_some read
  have small := time.nanos_lt
  simp only [isLeap, millis, decide_eq_true_eq, decide_eq_false_iff_not] at seconds nanos ⊢
  refine ⟨?second, ?plain, ?count⟩
  case second => split <;> omega
  case plain => omega
  case count => omega

theorem exists_ofMillis? (plain : time.isLeap = false) :
    ∃ heard, ofMillis? time.millis = some heard := by
  have first := time.not_before
  have last := time.not_after
  simp only [isLeap, decide_eq_false_iff_not] at plain
  unfold ofMillis? ofUnix? millis
  rw [dif_pos (by omega)]
  exact ⟨_, rfl⟩

theorem datetimeText_heard (read : ofMillis? time.millis = some heard) :
    heard.datetimeText = time.datetimeText ↔ time.isLeap = false := by
  obtain ⟨seconds, plain, _⟩ := ofMillis?_millis read
  rw [datetimeText_eq_iff, seconds, plain]
  cases time.isLeap with
  | true => simp
  | false => simp

/-- The second after a leap second lies in the same day, unless there is none left. -/
theorem dateText_heard (read : ofMillis? time.millis = some heard) :
    heard.dateText = time.dateText ↔ ¬ (time.isLeap = true ∧ time.secondOfDay = 86399) := by
  obtain ⟨seconds, _, _⟩ := ofMillis?_millis read
  rw [dateText_eq_iff, day, day, seconds, secondOfDay]
  cases time.isLeap with
  | true =>
      simp only [if_true, true_and]
      omega
  | false => simp

end Instant

namespace Event

/-- What is signed at one instant is signed at another: the same text with the same key. -/
structure Step.SignedAs (step : Step) (heard : Instant) : Prop where
  datetime : (step.session.scope heard).datetime = (step.session.scope step.time).datetime
  date : (step.session.scope heard).date = (step.session.scope step.time).date
  text : ∀ block payload, step.session.stringToSign heard block payload =
    step.session.stringToSign step.time block payload
  key : Signature.key step.session.credential.secretAccessKey (step.session.scope heard) =
    Signature.key step.session.credential.secretAccessKey (step.session.scope step.time)

theorem Step.signedAs_of_datetime {step : Step} {heard : Instant}
    (datetime : heard.datetimeText = step.time.datetimeText) : step.SignedAs heard := by
  have date : heard.dateText = step.time.dateText := by
    rw [Instant.datetimeText_eq_iff] at datetime
    rw [Instant.dateText_eq_iff, Instant.day, Instant.day, datetime.1]
  have stamp : (step.session.scope heard).datetime = (step.session.scope step.time).datetime :=
    datetime
  have parts : (step.session.scope heard).parts = (step.session.scope step.time).parts := by
    unfold Scope.parts Scope.date Session.scope
    rw [date]
  refine ⟨stamp, date, ?text, ?key⟩
  case text =>
    intro block payload
    unfold Session.stringToSign Signature.stringToSign Scope.text
    rw [stamp, parts]
  case key => rw [Signature.key, Signature.key, parts]

theorem Step.signedAs_iff {step : Step} {heard : Instant}
    (read : Instant.ofMillis? step.time.millis = some heard) :
    step.SignedAs heard ↔ step.time.isLeap = false := by
  constructor
  · intro signed
    exact (Instant.datetimeText_heard read).mp signed.datetime
  · intro plain
    exact signedAs_of_datetime ((Instant.datetimeText_heard read).mpr plain)

/-- A receiver who derives the same text and key, and encodes the date as it came, comes to the same
signature. -/
theorem Step.SignedAs.signature {step : Step} {heard : Instant} (signed : step.SignedAs heard)
    (count : heard.millis = step.time.millis) (payload : Bytes) :
    step.session.frameSignature heard payload = step.session.frameSignature step.time payload := by
  have block : dateBlock heard = dateBlock step.time := by rw [dateBlock, dateBlock, count]
  rw [Session.frameSignature, Session.frameSignature, signed.key, block, signed.text]

theorem Chain.follows_of_mem {credential : Credential} {region service seed last : String}
    {links : List Link} (chained : Chain credential region service seed links last) {link : Link}
    (member : link ∈ links) :
    ∃ prior next, link.Follows credential region service prior next := by
  induction chained with
  | start => exact absurd member List.not_mem_nil
  | next follows _ ih =>
      rcases List.mem_cons.mp member with rfl | later
      · exact ⟨_, _, follows⟩
      · exact ih later

theorem Link.Follows.carries {credential : Credential} {region service prior next : String}
    {link : Link} (follows : link.Follows credential region service prior next) :
    ∃ payload, link.emission.read? =
      some (link.step.session.signedMessage link.step.time payload) := by
  obtain ⟨found, payload, signature, block, _, read, _, spelled, written, calculated⟩ := follows
  cases (encode_dateHeaders link.step.time).symm.trans written
  refine ⟨payload, read.trans ?_⟩
  have same : signature = link.step.session.frameSignature link.step.time payload := by
    rw [found]
    exact Hex.encode_injective (spelled.symm.trans calculated)
  rw [same]
  rfl

/-- The date of a frame, read back as an instant, is that of the text and the key that were signed,
just if no leap second was signed. The day alone is the same unless the leap second is the last of
its day. -/
theorem date_names_instant_iff {session : Session} {clock : Clock} {calls : List Call} {link : Link}
    (given : link ∈ session.links clock calls) :
    ∃ date signature payload,
      link.emission.read? =
        some ⟨[⟨":date", .timestamp date⟩, ⟨":chunk-signature", .bytes signature⟩], payload⟩ ∧
      ((∃ heard, Instant.ofMillis? date.millis = some heard ∧ link.step.SignedAs heard) ↔
        link.step.time.isLeap = false) ∧
      ∀ heard, Instant.ofMillis? date.millis = some heard →
        (link.step.SignedAs heard → link.step.session.frameSignature heard payload = signature) ∧
        (heard.dateText = (link.step.session.scope link.step.time).date ↔
          ¬ (link.step.time.isLeap = true ∧ link.step.time.secondOfDay = 86399)) := by
  obtain ⟨prior, next, follows⟩ := (chain_of_run session clock calls).follows_of_mem given
  obtain ⟨payload, read⟩ := follows.carries
  refine ⟨.ofMillis link.step.time.millis, _, payload, read, ?iff, ?each⟩
  case iff =>
    rw [Timestamp.millis_ofMillis]
    constructor
    · rintro ⟨heard, found, signed⟩
      exact (Step.signedAs_iff found).mp signed
    · intro plain
      obtain ⟨heard, found⟩ := Instant.exists_ofMillis? plain
      exact ⟨heard, found, (Step.signedAs_iff found).mpr plain⟩
  case each =>
    rw [Timestamp.millis_ofMillis]
    intro heard found
    exact ⟨fun signed => signed.signature (Instant.ofMillis?_millis found).2.2 payload,
      Instant.dateText_heard found⟩

/-- A session that gives one message, at a fraction of the second before 2017 or in the leap second
that was put in there. -/
def newYearSession : Session := ⟨⟨"AKID", "secret", none⟩, "us-east-1", "transcribe", "00"⟩

def lastFraction : Instant :=
  ⟨1483228799, 999999999, by decide, by decide, by decide, by decide⟩

def leapSecond : Instant :=
  ⟨1483228799, 1000000000, by decide, by decide, by decide, by decide⟩

def newYearLink (time : Instant) : Link :=
  ⟨⟨.message (Bytes.ofText "abc"), newYearSession, ⟨time, []⟩⟩,
    .message (newYearSession.signedMessage time (Bytes.ofText "abc"))⟩

theorem newYearLink_given (time : Instant) :
    newYearLink time ∈ newYearSession.links ⟨time, []⟩ [.message (Bytes.ofText "abc")] := by
  rw [(links_of_ok [] (Call.perform_message newYearSession ⟨time, []⟩ (Bytes.ofText "abc"))).1]
  exact List.mem_cons_self

theorem read_newYearLink (time : Instant) :
    (newYearLink time).emission.read? =
      some (newYearSession.signedMessage time (Bytes.ofText "abc")) :=
  rfl

theorem last_fraction_named :
    ∃ date signature payload,
      (newYearLink lastFraction).emission.read? =
        some ⟨[⟨":date", .timestamp date⟩, ⟨":chunk-signature", .bytes signature⟩], payload⟩ ∧
      ∃ heard, Instant.ofMillis? date.millis = some heard ∧
        (newYearLink lastFraction).step.SignedAs heard ∧
        newYearSession.frameSignature heard payload = signature := by
  obtain ⟨date, signature, payload, read, named, each⟩ :=
    date_names_instant_iff (newYearLink_given lastFraction)
  obtain ⟨heard, found, signed⟩ := named.mpr (by decide)
  exact ⟨date, signature, payload, read, heard, found, signed, (each heard found).1 signed⟩

/-- A message that is signed in the leap second is dated in the year after it. -/
theorem leap_second_dated_later :
    ∃ link ∈ newYearSession.links ⟨leapSecond, []⟩ [.message (Bytes.ofText "abc")],
      ∃ date signature heard,
        link.emission.read? =
          some ⟨[⟨":date", .timestamp date⟩, ⟨":chunk-signature", .bytes signature⟩],
            Bytes.ofText "abc"⟩ ∧
        Instant.ofMillis? date.millis = some heard ∧
        heard.datetimeText = "20170101T000000Z" ∧
        (link.step.session.scope link.step.time).datetime = "20161231T235960Z" ∧
        heard.dateText ≠ (link.step.session.scope link.step.time).date ∧
        ¬ link.step.SignedAs heard := by
  have found : Instant.ofMillis? (Timestamp.ofMillis leapSecond.millis).millis =
      some ⟨1483228800, 0, by decide, by decide, by decide, by decide⟩ := by
    cbv
  refine ⟨_, newYearLink_given leapSecond, .ofMillis leapSecond.millis, _, _,
    read_newYearLink leapSecond, found, by decide +kernel, by decide +kernel, by decide +kernel, ?_⟩
  intro signed
  exact absurd signed.datetime (by decide +kernel)

end Event

end SigV4
