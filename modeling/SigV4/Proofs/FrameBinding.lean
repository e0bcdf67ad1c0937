import SigV4.Proofs.FrameChain
import SigV4.Proofs.Stamp
/-!
What the last signature of a run binds. Two runs of one credential, region and service that give as
many frames and end in the same signature have the same seed and the same dates and payloads,
frame by frame, unless two different inputs that the runs themselves hash have the same hash. The
inputs are those of the runs: over all octet strings collisions exist anyway.
-/
namespace SigV4.Event

def Message.value? (message : Message) (name : String) : Option Value :=
  (message.headers.find? (·.name = name)).map (·.value)

namespace Emission

def date? (emission : Emission) : Option Int := do
  match ← (← emission.read?).value? dateName with
  | .timestamp date => some date.millis
  | _ => none

def signature? (emission : Emission) : Option Bytes := do
  match ← (← emission.read?).value? signatureName with
  | .bytes signature => some signature
  | _ => none

def content? (emission : Emission) : Option (Int × Bytes) := do
  return (← emission.date?, (← emission.read?).payload)

end Emission

namespace Step

/-- What a step hashes without a key: its header block and its payload. -/
def digested (step : Step) : List Bytes :=
  match step.call.payload? with
  | some payload => [dateBlock step.time, payload]
  | none => []

/-- What a step hashes with the key of its scope: the text that its signature covers. -/
def keyed (step : Step) : List (Bytes × Bytes) :=
  match step.call.payload? with
  | some payload =>
      [(Signature.key step.session.credential.secretAccessKey (step.session.scope step.time),
        Bytes.ofText (step.session.stringToSign step.time (dateBlock step.time) payload))]
  | none => []

end Step

/-- Two different inputs, one of each run, with the same hash. -/
def Collision (left right : List Step) : Prop :=
  (∃ first ∈ left.flatMap Step.digested, ∃ second ∈ right.flatMap Step.digested,
    first ≠ second ∧ Sha256.hash first = Sha256.hash second) ∨
  (∃ first ∈ left.flatMap Step.keyed, ∃ second ∈ right.flatMap Step.keyed,
    first ≠ second ∧ Hmac.mac first.1 first.2 = Hmac.mac second.1 second.2)

theorem Collision.of_digests {left right : Step} {first second : Bytes}
    (inLeft : first ∈ left.digested) (inRight : second ∈ right.digested)
    (different : first ≠ second) (same : Sha256.hash first = Sha256.hash second) :
    Collision [left] [right] :=
  Or.inl ⟨first, List.mem_flatMap.mpr ⟨left, List.mem_singleton_self left, inLeft⟩, second,
    List.mem_flatMap.mpr ⟨right, List.mem_singleton_self right, inRight⟩, different, same⟩

theorem Collision.of_macs {left right : Step} {first second : Bytes × Bytes}
    (inLeft : first ∈ left.keyed) (inRight : second ∈ right.keyed) (different : first ≠ second)
    (same : Hmac.mac first.1 first.2 = Hmac.mac second.1 second.2) : Collision [left] [right] :=
  Or.inr ⟨first, List.mem_flatMap.mpr ⟨left, List.mem_singleton_self left, inLeft⟩, second,
    List.mem_flatMap.mpr ⟨right, List.mem_singleton_self right, inRight⟩, different, same⟩

theorem Collision.mono {left right more others : List Step} (found : Collision left right)
    (leftKept : left ⊆ more) (rightKept : right ⊆ others) : Collision more others := by
  have kept {α : Type} (of : Step → List α) {few many : List Step} (included : few ⊆ many) :
      few.flatMap of ⊆ many.flatMap of := by
    intro item member
    obtain ⟨step, inside, given⟩ := List.mem_flatMap.mp member
    exact List.mem_flatMap.mpr ⟨step, included inside, given⟩
  rcases found with ⟨first, inLeft, second, inRight, collides⟩ |
    ⟨first, inLeft, second, inRight, collides⟩
  · exact Or.inl ⟨first, kept _ leftKept inLeft, second, kept _ rightKept inRight, collides⟩
  · exact Or.inr ⟨first, kept _ leftKept inLeft, second, kept _ rightKept inRight, collides⟩

-- The text that a frame signs, field by field. Region and service may hold any character, so the
-- fields after them are not found by their separators but, the digests having one length, from
-- the end.
theorem ofText_scope (scope : Scope) :
    Bytes.ofText scope.text = Bytes.ofText scope.date ++ '/'.toUInt8 ::
      (Bytes.ofText scope.region ++ '/'.toUInt8 :: (Bytes.ofText scope.service ++
        '/'.toUInt8 :: Bytes.ofText Scope.terminator)) := by
  have slash : Bytes.ofText "/" = ['/'.toUInt8] := rfl
  simp [Scope.text, Scope.parts, slash]

theorem ofText_lines (algorithm datetime scope prior first second : String) :
    Bytes.ofText (Signature.lines algorithm datetime scope [prior, first, second]) =
      Bytes.ofText algorithm ++ '\n'.toUInt8 :: (Bytes.ofText datetime ++ '\n'.toUInt8 ::
        (Bytes.ofText scope ++ '\n'.toUInt8 :: (Bytes.ofText prior ++ '\n'.toUInt8 ::
          (Bytes.ofText first ++ '\n'.toUInt8 :: Bytes.ofText second)))) := by
  have feed : Bytes.ofText "\n" = ['\n'.toUInt8] := rfl
  simp [Signature.lines, feed]

theorem scope_text_unique (left right : Scope) {rest tail : Bytes}
    (region : left.region = right.region) (service : left.service = right.service)
    (same : Bytes.ofText left.text ++ rest = Bytes.ofText right.text ++ tail) : rest = tail := by
  rw [ofText_scope, ofText_scope, region, service, List.append_assoc, List.append_assoc,
    List.cons_append, List.cons_append] at same
  have fields := Form.field_unique (Instant.not_mem_dateText rfl)
    (Instant.not_mem_dateText rfl) same
  exact List.append_cancel_left fields.2

theorem length_hexHash (octets : Bytes) : (Bytes.ofText (Sha256.hexHash octets)).length = 64 := by
  rw [Sha256.hexHash, Hex.ofText_encode, Hex.length_digits, Sha256.length_hash]

theorem stringToSign_binds {left right : Session} {time other : Instant}
    {block payload otherBlock otherPayload : Bytes}
    (same : left.stringToSign time block payload =
      right.stringToSign other otherBlock otherPayload)
    (region : left.region = right.region) (service : left.service = right.service) :
    left.prior = right.prior ∧ Sha256.hash block = Sha256.hash otherBlock ∧
      Sha256.hash payload = Sha256.hash otherPayload := by
  have octets := congrArg Bytes.ofText same
  simp only [Session.stringToSign, Signature.stringToSign, ofText_lines] at octets
  have afterAlgorithm := (List.cons.inj (List.append_cancel_left octets)).2
  have afterTime := (Form.field_unique (Instant.lineFeed_not_mem_datetimeText time)
    (Instant.lineFeed_not_mem_datetimeText other) afterAlgorithm).2
  have afterScope := (List.cons.inj (scope_text_unique (left.scope time) (right.scope other)
    region service afterTime)).2
  have ends : ∀ first second : Bytes,
      ('\n'.toUInt8 :: (Bytes.ofText (Sha256.hexHash first) ++
        '\n'.toUInt8 :: Bytes.ofText (Sha256.hexHash second))).length = 130 := by
    intro first second
    simp [length_hexHash]
  obtain ⟨prior, digests⟩ := List.append_inj' afterScope ((ends _ _).trans (ends _ _).symm)
  obtain ⟨blocks, payloads⟩ := List.append_inj (List.cons.inj digests).2
    ((length_hexHash block).trans (length_hexHash otherBlock).symm)
  refine ⟨Bytes.ofText_injective prior, ?_, ?_⟩
  · exact Hex.encode_injective (Bytes.ofText_injective blocks)
  · exact Hex.encode_injective (Bytes.ofText_injective (List.cons.inj payloads).2)

theorem dateBlock_injective {time other : Instant} (same : dateBlock time = dateBlock other) :
    time.millis = other.millis := by
  have first := takeHeader_encode (encode_dateHeader time) []
  have second := takeHeader_encode (encode_dateHeader other) []
  rw [same, second] at first
  simp only [Option.some.injEq, Prod.mk.injEq, Header.received, dateHeader, Value.received,
    Timestamp.millis_ofMillis, Header.mk.injEq, Value.timestamp.injEq] at first
  have millis := congrArg Timestamp.millis first.1.2
  rw [Timestamp.millis_ofMillis, Timestamp.millis_ofMillis] at millis
  exact millis.symm

-- What a link shows, read off the two headers that it carries.
theorem Link.Follows.shows {credential : Credential} {region service prior next : String}
    {link : Link} (follows : link.Follows credential region service prior next) :
    ∃ payload signature, link.step.call.payload? = some payload ∧
      link.emission.signature? = some signature ∧ next = Hex.encode signature ∧
      link.emission.content? = some (link.step.time.millis, payload) := by
  obtain ⟨_, payload, signature, block, signed, read, _, spelled, _, _⟩ := follows
  refine ⟨payload, signature, signed, ?_, spelled, ?_⟩
  · simp [Emission.signature?, read, Message.value?, signatureName]
  · simp [Emission.content?, Emission.date?, read, Message.value?, dateName,
      Timestamp.millis_ofMillis]

-- What a link hashes: the key and the text behind its signature are kept as variables, so that
-- nothing unfolds the hash itself.
theorem Link.Follows.hashes {credential : Credential} {region service prior next : String}
    {link : Link} (follows : link.Follows credential region service prior next) :
    ∃ payload key text,
      link.step.digested = [dateBlock link.step.time, payload] ∧
      link.step.keyed = [(key, Bytes.ofText text)] ∧
      next = Signature.hex key text ∧
      text = Session.stringToSign ⟨credential, region, service, prior⟩ link.step.time
        (dateBlock link.step.time) payload ∧
      link.emission.content? = some (link.step.time.millis, payload) := by
  obtain ⟨payload, signature, signed, _, _, content⟩ := follows.shows
  obtain ⟨found, given, _, block, same, _, _, _, written, calculated⟩ := follows
  cases signed.symm.trans same
  cases (encode_dateHeaders link.step.time).symm.trans written
  refine ⟨payload, _, _, ?_, ?_, calculated, rfl, content⟩
  · simp only [Step.digested, signed]
  · simp only [Step.keyed, signed, found]
    rfl

theorem hex_binds {key other : Bytes} {text given : String}
    (same : Signature.hex key text = Signature.hex other given) :
    Hmac.mac key (Bytes.ofText text) = Hmac.mac other (Bytes.ofText given) :=
  Hex.encode_injective same

/-- One link from its end: equal signatures come from equal links, or from a collision. -/
theorem Link.Follows.binds {credential : Credential}
    {region service prior other next : String} {left right : Link}
    (first : left.Follows credential region service prior next)
    (second : right.Follows credential region service other next) :
    (prior = other ∧ left.emission.content? = right.emission.content?) ∨
      Collision [left.step] [right.step] := by
  obtain ⟨payload, key, text, digested, keyed, signed, spelled, content⟩ := first.hashes
  obtain ⟨given, otherKey, otherText, otherDigested, otherKeyed, otherSigned, otherSpelled,
    otherContent⟩ := second.hashes
  have hashed := hex_binds (signed.symm.trans otherSigned)
  by_cases inputs : (key, Bytes.ofText text) = (otherKey, Bytes.ofText otherText)
  · have texts := Bytes.ofText_injective (Prod.mk.inj inputs).2
    rw [spelled, otherSpelled] at texts
    obtain ⟨priors, blocks, payloads⟩ := stringToSign_binds texts rfl rfl
    by_cases sameBlock : dateBlock left.step.time = dateBlock right.step.time
    · by_cases samePayload : payload = given
      · left
        rw [content, otherContent, samePayload, dateBlock_injective sameBlock]
        exact ⟨priors, rfl⟩
      · right
        have inLeft : payload ∈ left.step.digested := by simp [digested]
        have inRight : given ∈ right.step.digested := by simp [otherDigested]
        exact .of_digests inLeft inRight samePayload payloads
    · right
      have inLeft : dateBlock left.step.time ∈ left.step.digested := by simp [digested]
      have inRight : dateBlock right.step.time ∈ right.step.digested := by simp [otherDigested]
      exact .of_digests inLeft inRight sameBlock blocks
  · right
    have inLeft : (key, Bytes.ofText text) ∈ left.step.keyed := by simp [keyed]
    have inRight : (otherKey, Bytes.ofText otherText) ∈ right.step.keyed := by simp [otherKeyed]
    exact .of_macs inLeft inRight inputs hashed

-- Backwards along both chains: the rests are compared first, which gives the signature that the
-- first links must share.
theorem Chain.binds {credential : Credential} {region service seed other last : String}
    {left right : List Link} (first : Chain credential region service seed left last)
    (second : Chain credential region service other right last)
    (length : left.length = right.length) :
    (seed = other ∧ left.map (·.emission.content?) = right.map (·.emission.content?)) ∨
      Collision (left.map (·.step)) (right.map (·.step)) := by
  induction first generalizing right other with
  | start prior =>
      cases second with
      | start => exact Or.inl ⟨rfl, rfl⟩
      | next => contradiction
  | @next prior between last link rest follows chained ih =>
      cases second with
      | start => contradiction
      | @next _ middle _ linked others followed more =>
          rcases ih more (Nat.succ.inj length) with ⟨same, contents⟩ | found
          · subst same
            rcases follows.binds followed with ⟨priors, content⟩ | found
            · left
              rw [List.map_cons, List.map_cons, content, contents]
              exact ⟨priors, rfl⟩
            · exact Or.inr (found.mono (by simp) (by simp))
          · exact Or.inr (found.mono (by simp) (by simp))

-- A chain that is not empty ends in the signature that its last link carries.
theorem Chain.ends {credential : Credential} {region service prior final : String}
    {links : List Link} (chained : Chain credential region service prior links final)
    {last : Link} (found : links.getLast? = some last) :
    ∃ signature, last.emission.signature? = some signature ∧ final = Hex.encode signature := by
  induction chained with
  | start => contradiction
  | @next prior between final link rest follows more ih =>
      cases more with
      | start =>
          cases Option.some.inj found
          obtain ⟨_, signature, _, carried, spelled, _⟩ := follows.shows
          exact ⟨signature, carried, spelled⟩
      | next => exact ih (List.getLast?_cons_cons ▸ found)

theorem Chain.contents {credential : Credential} {region service prior final : String}
    {links : List Link} (chained : Chain credential region service prior links final) :
    ∃ history : List (Int × Bytes), links.map (·.emission.content?) = history.map some := by
  induction chained with
  | start => exact ⟨[], rfl⟩
  | next follows _ ih =>
      obtain ⟨payload, _, _, _, _, content⟩ := follows.shows
      obtain ⟨history, contents⟩ := ih
      exact ⟨_ :: history, by rw [List.map_cons, List.map_cons, content, contents]⟩

theorem links_subset (session : Session) (clock : Clock) (calls : List Call) :
    (session.links clock calls).map (·.step) ⊆ session.steps clock calls := by
  intro step member
  obtain ⟨link, inside, rfl⟩ := List.mem_map.mp member
  obtain ⟨source, present, given⟩ := List.mem_filterMap.mp inside
  unfold Step.link? at given
  split at given
  · cases given
    exact present
  · contradiction

/-- Runs that give equally many frames, at least one, and end in one signature have one seed and
one history of dates and payloads, or two inputs that they hash collide. -/
theorem last_signature_binds_run (credential : Credential) (region service seed other : String)
    (clock otherClock : Clock) (calls otherCalls : List Call) (last otherLast : Link)
    (frames : (Session.links ⟨credential, region, service, seed⟩ clock calls).length =
      (Session.links ⟨credential, region, service, other⟩ otherClock otherCalls).length)
    (ends : (Session.links ⟨credential, region, service, seed⟩ clock calls).getLast? = some last)
    (otherEnds : (Session.links ⟨credential, region, service, other⟩ otherClock
      otherCalls).getLast? = some otherLast)
    (same : last.emission.signature? = otherLast.emission.signature?) :
    (seed = other ∧ ∃ history : List (Int × Bytes),
      (Session.links ⟨credential, region, service, seed⟩ clock calls).map
        (·.emission.content?) = history.map some ∧
      (Session.links ⟨credential, region, service, other⟩ otherClock otherCalls).map
        (·.emission.content?) = history.map some) ∨
    Collision (Session.steps ⟨credential, region, service, seed⟩ clock calls)
      (Session.steps ⟨credential, region, service, other⟩ otherClock otherCalls) := by
  have first := chain_of_run ⟨credential, region, service, seed⟩ clock calls
  have second := chain_of_run ⟨credential, region, service, other⟩ otherClock otherCalls
  obtain ⟨signature, carried, spelled⟩ := first.ends ends
  obtain ⟨given, otherCarried, otherSpelled⟩ := second.ends otherEnds
  rw [carried, otherCarried, Option.some.injEq] at same
  rw [spelled, same] at first
  rw [otherSpelled] at second
  rcases first.binds second frames with ⟨seeds, contents⟩ | found
  · obtain ⟨history, shown⟩ := first.contents
    exact Or.inl ⟨seeds, history, shown, contents ▸ shown⟩
  · exact Or.inr (found.mono (links_subset _ _ _) (links_subset _ _ _))

def unnameable : Message := ⟨[⟨String.ofList (List.replicate 256 'x'), .bool true⟩], []⟩

theorem links_unnameable (session : Session) (clock : Clock) (rest : List Call) :
    session.links clock (.event unnameable :: rest) = session.links clock rest := by
  have refused : unnameable.encode = .error .nameTooLong := by decide +kernel
  have performed : (Call.event unnameable).perform session clock =
      ⟨.error (.eventUnencodable .nameTooLong), session, clock, []⟩ := by
    simp only [Call.perform, Session.signEvent, refused]
    rfl
  exact (links_of_error rest performed).1

-- Two runs that are not alike: in the second one an event is refused between the frames. It draws
-- no instant and leaves the session, so both runs end in one signature.
theorem last_signature_binds_refused_event :
    let credential : Credential := ⟨"key", "secret", none⟩
    let session : Session := ⟨credential, "us-east-1", "transcribe", "seed"⟩
    let clock : Clock := ⟨Instant.epoch, []⟩
    let plain : List Call := [.message [1], .message []]
    let refusing : List Call := [.message [1], .event unnameable, .message []]
    ∃ last, (session.links clock plain).length = (session.links clock refusing).length ∧
      (session.links clock plain).getLast? = some last ∧
      (session.links clock refusing).getLast? = some last ∧
      ((∃ history : List (Int × Bytes),
        (session.links clock plain).map (·.emission.content?) = history.map some ∧
        (session.links clock refusing).map (·.emission.content?) = history.map some) ∨
      Collision (session.steps clock plain) (session.steps clock refusing)) := by
  intro credential session clock plain refusing
  have signs : ∀ (found : Session) (clock : Clock) (payload : Bytes),
      ∃ link next later, ∀ more, found.links clock (.message payload :: more) =
        link :: Session.links next later more := by
    intro found clock payload
    exact ⟨_, _, _, fun more => (links_of_ok more (Call.perform_message found clock payload)).1⟩
  obtain ⟨first, next, later, opened⟩ := signs session clock [1]
  obtain ⟨last, final, latest, closed⟩ := signs next later []
  have plainLinks : session.links clock plain = [first, last] := by
    rw [opened, closed]
    rfl
  have refusingLinks : session.links clock refusing = [first, last] := by
    rw [opened, links_unnameable, closed]
    rfl
  have length : (session.links clock plain).length = (session.links clock refusing).length := by
    rw [plainLinks, refusingLinks]
  have ends : (session.links clock plain).getLast? = some last := by rw [plainLinks]; rfl
  have otherEnds : (session.links clock refusing).getLast? = some last := by
    rw [refusingLinks]; rfl
  have bound := last_signature_binds_run credential "us-east-1" "transcribe" "seed" "seed" clock
    clock plain refusing last last length ends otherEnds rfl
  exact ⟨last, length, ends, otherEnds, bound.imp_left And.right⟩

end SigV4.Event
