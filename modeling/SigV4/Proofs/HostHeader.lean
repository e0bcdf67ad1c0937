import SigV4.Proofs.NormalHeaders
import SigV4.Proofs.SigningCondition
/-!
The host that is added to a request that has none. It is the authority of the target as it is
spelled. A client connects to a part of that only: the host, and the port if there is one. What
stands before the last at sign is user information, and it goes along: it is sent, signed and logged
in the clear.
-/
namespace SigV4

namespace Bytes

def splitLast? (mark : UInt8) : Bytes → Option (Bytes × Bytes)
  | [] => none
  | octet :: rest =>
      match splitLast? mark rest with
      | some (front, back) => some (octet :: front, back)
      | none => if octet = mark then some ([], rest) else none

theorem splitLast?_eq_none {mark : UInt8} {octets : Bytes} :
    splitLast? mark octets = none ↔ mark ∉ octets := by
  induction octets with
  | nil => simp [splitLast?]
  | cons octet rest ih =>
      rw [splitLast?, List.mem_cons, not_or, ← ih]
      cases splitLast? mark rest with
      | some parts => simp
      | none => simp [eq_comm]

/-- Appending to a text only moves its last mark where what is appended has one. -/
theorem splitLast?_append (mark : UInt8) (front back : Bytes) :
    splitLast? mark (front ++ back) =
      ((splitLast? mark back).map fun parts => (front ++ parts.1, parts.2)).or
        ((splitLast? mark front).map fun parts => (parts.1, parts.2 ++ back)) := by
  induction front with
  | nil => cases found : splitLast? mark back <;> simp [splitLast?, found]
  | cons octet rest ih =>
      rw [List.cons_append, splitLast?, ih, splitLast?]
      cases splitLast? mark back with
      | some parts => rfl
      | none =>
          cases splitLast? mark rest with
          | some parts => rfl
          | none => by_cases found : octet = mark <;> simp [found]

theorem splitLast?_eq_some {mark : UInt8} {octets front back : Bytes} :
    splitLast? mark octets = some (front, back) ↔
      octets = front ++ mark :: back ∧ mark ∉ back := by
  constructor
  · intro found
    induction octets generalizing front with
    | nil => contradiction
    | cons octet rest ih =>
        rw [splitLast?] at found
        cases later : splitLast? mark rest with
        | some parts =>
            rw [later] at found
            obtain ⟨rfl, rfl⟩ := Prod.mk.inj (Option.some.inj found)
            obtain ⟨spelled, last⟩ := ih later
            exact ⟨congrArg (octet :: ·) spelled, last⟩
        | none =>
            simp only [later, Option.ite_none_right_eq_some, Option.some.injEq,
              Prod.mk.injEq] at found
            obtain ⟨rfl, rfl, rfl⟩ := found
            exact ⟨rfl, splitLast?_eq_none.mp later⟩
  · rintro ⟨rfl, last⟩
    rw [splitLast?_append, splitLast?, splitLast?_eq_none.mpr last]
    simp

end Bytes

namespace Authority

def octets (authority : Authority) : Bytes := Bytes.ofText authority.text

def userInformation (octets : Bytes) : Option Bytes :=
  (octets.splitLast? '@'.toUInt8).map (·.1)

def address (octets : Bytes) : Bytes := (octets.splitLast? '@'.toUInt8).elim octets (·.2)

/-- A host is read up to the bracket that closes it, or up to a colon. -/
def host (octets : Bytes) : Bytes :=
  let address := address octets
  if address.head? = some '['.toUInt8 then
    address.take ((address.takeWhile (· != ']'.toUInt8)).length + 1)
  else address.takeWhile (· != ':'.toUInt8)

def number (digits : Bytes) : Nat :=
  digits.foldl (fun value digit => 10 * value + (digit - '0'.toUInt8).toNat) 0

/-- A number of sixteen bits, in decimal. A plus sign may stand in front of it. -/
def isPort (octets : Bytes) : Bool :=
  let digits := if octets.head? = some '+'.toUInt8 then octets.tail else octets
  !digits.isEmpty && digits.all Bytes.isDigit && number digits < 2 ^ 16

def port? (octets : Bytes) : Option Bytes :=
  ((octets.splitLast? ':'.toUInt8).map (·.2)).filter isPort

def destination (octets : Bytes) : Bytes :=
  host octets ++ (port? octets).elim [] (':'.toUInt8 :: ·)

inductive IsHost : Bytes → Prop where
  | bracketed {inner : Bytes} (once : ']'.toUInt8 ∉ inner) (free : '@'.toUInt8 ∉ inner) :
      IsHost ('['.toUInt8 :: inner ++ [']'.toUInt8])
  | name {octets : Bytes} (bare : octets.head? ≠ some '['.toUInt8) (short : ':'.toUInt8 ∉ octets)
      (free : '@'.toUInt8 ∉ octets) : IsHost octets

inductive IsDestination : Bytes → Prop where
  | host {octets : Bytes} (named : IsHost octets) : IsDestination octets
  | ported {octets port : Bytes} (named : IsHost octets) (numbered : isPort port = true) :
      IsDestination (octets ++ ':'.toUInt8 :: port)

section Address

variable {octets front tail port : Bytes}

theorem userInformation_eq_none : userInformation octets = none ↔ '@'.toUInt8 ∉ octets := by
  rw [userInformation, Option.map_eq_none_iff, Bytes.splitLast?_eq_none]

theorem address_eq_self (free : '@'.toUInt8 ∉ octets) : address octets = octets := by
  rw [address, Bytes.splitLast?_eq_none.mpr free]
  rfl

/-- An authority is its address, or user information with an at sign and then its address. -/
theorem address_cases (octets : Bytes) :
    (userInformation octets = none ∧ address octets = octets) ∨
      ∃ user, userInformation octets = some user ∧
        octets = user ++ '@'.toUInt8 :: address octets ∧ '@'.toUInt8 ∉ address octets := by
  unfold userInformation address
  cases found : octets.splitLast? '@'.toUInt8 with
  | none => exact .inl ⟨rfl, rfl⟩
  | some parts => exact .inr ⟨parts.1, rfl, Bytes.splitLast?_eq_some.mp found⟩

theorem not_mem_address (octets : Bytes) : '@'.toUInt8 ∉ address octets := by
  rcases address_cases octets with ⟨none, same⟩ | ⟨user, _, _, free⟩
  · rw [same]
    exact userInformation_eq_none.mp none
  · exact free

theorem address_suffix (octets : Bytes) : address octets <:+ octets := by
  rcases address_cases octets with ⟨_, same⟩ | ⟨user, _, spelled, _⟩
  · exact ⟨[], same⟩
  · exact ⟨user ++ ['@'.toUInt8], by rw [List.append_assoc]; exact spelled.symm⟩

theorem address_address (octets : Bytes) : address (address octets) = address octets :=
  address_eq_self (not_mem_address octets)

theorem host_address (octets : Bytes) : host (address octets) = host octets := by
  rw [host, address_address, host]

def isPortByte (octet : UInt8) : Bool := Bytes.isDigit octet || octet == '+'.toUInt8

theorem isPortByte_of_mem {octet : UInt8} (numbered : isPort port = true) (member : octet ∈ port) :
    isPortByte octet = true := by
  simp only [isPort, Bool.and_eq_true, List.all_eq_true] at numbered
  obtain ⟨⟨_, digits⟩, _⟩ := numbered
  cases port with
  | nil => contradiction
  | cons first rest =>
      split at digits
      · next plus =>
          rcases List.mem_cons.mp member with rfl | later
          · rw [isPortByte, Option.some.inj plus]
            rfl
          · rw [isPortByte, digits octet later, Bool.true_or]
      · rw [isPortByte, digits octet member, Bool.true_or]

theorem port?_ported (front : Bytes) (numbered : isPort port = true) :
    port? (front ++ ':'.toUInt8 :: port) = some port := by
  have last : ':'.toUInt8 ∉ port :=
    Bytes.not_mem_of_class (fun _ => isPortByte_of_mem numbered) (by decide)
  rw [port?, Bytes.splitLast?_eq_some.mpr ⟨rfl, last⟩]
  simp [numbered]

/-- After a colon comes no port if what ends the text cannot stand in one. -/
theorem port?_eq_none {octet : UInt8} (front : Bytes) (short : ':'.toUInt8 ∉ tail)
    (member : octet ∈ tail) (other : isPortByte octet = false) : port? (front ++ tail) = none := by
  rw [port?, Bytes.splitLast?_append, Bytes.splitLast?_eq_none.mpr short]
  cases front.splitLast? ':'.toUInt8 with
  | none => rfl
  | some parts =>
      have refused : isPort (parts.2 ++ tail) = false := by
        by_contra numbered
        have inside := isPortByte_of_mem (Bool.eq_true_of_not_eq_false numbered)
          (List.mem_append_right parts.2 member)
        rw [other] at inside
        contradiction
      simp [refused]

theorem port?_address (octets : Bytes) : port? (address octets) = port? octets := by
  rcases address_cases octets with ⟨_, same⟩ | ⟨user, _, spelled, _⟩
  · rw [same]
  · generalize address octets = back at spelled
    subst spelled
    by_cases short : ':'.toUInt8 ∈ back
    · obtain ⟨parts, found⟩ := Option.ne_none_iff_exists'.mp
        fun none => Bytes.splitLast?_eq_none.mp none short
      rw [List.append_cons, port?, port?, Bytes.splitLast?_append, found]
      rfl
    · have last : ':'.toUInt8 ∉ '@'.toUInt8 :: back :=
        fun member => (List.mem_cons.mp member).elim (by decide) short
      rw [port?_eq_none user last List.mem_cons_self (by decide), port?,
        Bytes.splitLast?_eq_none.mpr short]
      rfl

theorem destination_address (octets : Bytes) :
    destination (address octets) = destination octets := by
  rw [destination, destination, host_address, port?_address]

theorem IsHost.free (named : IsHost octets) : '@'.toUInt8 ∉ octets := by
  cases named with
  | name bare short inside => exact inside
  | bracketed once inside =>
      rw [List.mem_append, List.mem_cons, not_or, not_or]
      exact ⟨⟨by decide, inside⟩, by decide⟩

theorem free_of_isPort (numbered : isPort port = true) : '@'.toUInt8 ∉ ':'.toUInt8 :: port := by
  rw [List.mem_cons, not_or]
  refine ⟨by decide, ?_⟩
  exact Bytes.not_mem_of_class (fun _ => isPortByte_of_mem numbered) (by decide)

theorem IsDestination.free (spelled : IsDestination octets) : '@'.toUInt8 ∉ octets := by
  cases spelled with
  | host named => exact named.free
  | ported named numbered =>
      rw [List.mem_append, not_or]
      exact ⟨named.free, free_of_isPort numbered⟩

/-- What is read up to the bracket that closes an address. -/
theorem take_bracketed (once : ']'.toUInt8 ∉ front) (back : Bytes) :
    ('['.toUInt8 :: front ++ ']'.toUInt8 :: back).take
        ((('['.toUInt8 :: front ++ ']'.toUInt8 :: back).takeWhile (· != ']'.toUInt8)).length + 1) =
      '['.toUInt8 :: front ++ [']'.toUInt8] := by
  have before : ∀ octet ∈ '['.toUInt8 :: front, (octet != ']'.toUInt8) = true := by
    intro octet member
    rcases List.mem_cons.mp member with rfl | later
    · rfl
    · exact bne_iff_ne.mpr fun same => once (same ▸ later)
  rw [List.takeWhile_append_of_pos before]
  simp [List.take_append]

theorem host_append (named : IsHost octets) (free : '@'.toUInt8 ∉ tail)
    (cut : tail = [] ∨ ∃ port, tail = ':'.toUInt8 :: port) : host (octets ++ tail) = octets := by
  have whole : '@'.toUInt8 ∉ octets ++ tail := by
    rw [List.mem_append, not_or]
    exact ⟨named.free, free⟩
  rw [host, address_eq_self whole]
  cases named with
  | @bracketed inner once inside =>
      have opened : ('['.toUInt8 :: inner ++ [']'.toUInt8] ++ tail).head? = some '['.toUInt8 := rfl
      rw [if_pos opened, List.append_assoc]
      exact take_bracketed once tail
  | name bare short inside =>
      have before : ∀ octet ∈ octets, (octet != ':'.toUInt8) = true :=
        fun octet member => bne_iff_ne.mpr fun same => short (same ▸ member)
      have unopened : ¬ (octets ++ tail).head? = some '['.toUInt8 := by
        cases octets with
        | cons first rest => exact bare
        | nil =>
            rcases cut with rfl | ⟨port, rfl⟩
            · exact fun start => by contradiction
            · exact fun start => absurd (Option.some.inj start) (by decide)
      rw [if_neg unopened, List.takeWhile_append_of_pos before]
      rcases cut with rfl | ⟨port, rfl⟩ <;> simp

theorem port?_host (named : IsHost octets) : port? octets = none := by
  cases named with
  | bracketed once inside =>
      exact port?_eq_none _ (by decide) List.mem_cons_self (by decide)
  | name bare short inside =>
      rw [port?, Bytes.splitLast?_eq_none.mpr short]
      rfl

theorem destination_eq_self (spelled : IsDestination octets) : destination octets = octets := by
  cases spelled with
  | host named =>
      have read := host_append named List.not_mem_nil (.inl rfl)
      rw [List.append_nil] at read
      rw [destination, read, port?_host named, Option.elim_none, List.append_nil]
  | @ported octets port named numbered =>
      have read := host_append named (free_of_isPort numbered) (.inr ⟨port, rfl⟩)
      rw [destination, read, port?_ported octets numbered, Option.elim_some]

end Address

section Brackets

variable {seen after : Survey} {octet : UInt8} {octets front back : Bytes}

/-- What a step does with brackets. -/
theorem absorb_brackets (absorbed : seen.absorb octet = .ok after) :
    (after.opened = true ↔ seen.opened = true ∨ octet = '['.toUInt8) ∧
      (after.closed = true ↔ seen.closed = true ∨ octet = ']'.toUInt8) ∧
      (octet = '['.toUInt8 → seen.opened = false) ∧
      (octet = ']'.toUInt8 → seen.opened = true) := by
  unfold Survey.absorb at absorbed
  simp only at absorbed
  split at absorbed
  · next colon =>
      subst colon
      split at absorbed
      · contradiction
      · rw [← Except.ok.inj absorbed]
        simp +decide
  split at absorbed
  · next opening =>
      subst opening
      split at absorbed
      · contradiction
      · next allowed =>
          rw [Bool.or_eq_true, not_or] at allowed
          rw [← Except.ok.inj absorbed]
          simp +decide [allowed.2]
  split at absorbed
  · next closing =>
      subst closing
      split at absorbed
      · contradiction
      · next allowed =>
          rw [Bool.or_eq_true, not_or] at allowed
          rw [← Except.ok.inj absorbed]
          simpa +decide using allowed.1
  next opening closing =>
  have kept : after.opened = seen.opened ∧ after.closed = seen.closed := by
    split at absorbed
    · exact Except.ok.inj absorbed ▸ ⟨rfl, rfl⟩
    split at absorbed
    · exact Except.ok.inj absorbed ▸ ⟨rfl, rfl⟩
    split at absorbed
    · exact Except.ok.inj absorbed ▸ ⟨rfl, rfl⟩
    · contradiction
  simp [kept, opening, closing]

theorem survey_cons :
    survey seen (octet :: octets) = .ok after ↔
      ∃ next, seen.absorb octet = .ok next ∧ survey next octets = .ok after := by
  rw [survey]
  cases seen.absorb octet <;> simp

theorem survey_append :
    survey seen (front ++ back) = .ok after ↔
      ∃ middle, survey seen front = .ok middle ∧ survey middle back = .ok after := by
  induction front generalizing seen with
  | nil => simp [survey]
  | cons octet rest ih =>
      simp only [List.cons_append, survey_cons, ih]
      constructor
      · rintro ⟨next, absorbed, middle, front, back⟩
        exact ⟨middle, ⟨next, absorbed, front⟩, back⟩
      · rintro ⟨middle, ⟨next, absorbed, front⟩, back⟩
        exact ⟨next, absorbed, middle, front, back⟩

/-- What every step keeps, a survey keeps. -/
theorem survey_keeps (holds : Survey → Prop) (surveyed : survey seen octets = .ok after)
    (step : ∀ octet ∈ octets, ∀ before next, before.absorb octet = .ok next →
      holds before → holds next)
    (start : holds seen) : holds after := by
  induction octets generalizing seen with
  | nil => exact Except.ok.inj surveyed ▸ start
  | cons octet rest ih =>
      obtain ⟨next, absorbed, later⟩ := survey_cons.mp surveyed
      have held : holds next := step octet List.mem_cons_self seen next absorbed start
      exact ih later (fun other member => step other (List.mem_cons_of_mem octet member)) held

/-- No bracket is closed that has not been opened. -/
def Survey.Ordered (seen : Survey) : Prop := seen.closed = true → seen.opened = true

theorem ordered_absorb (absorbed : seen.absorb octet = .ok after) (ordered : seen.Ordered) :
    after.Ordered := by
  obtain ⟨opened, closed, _, closing⟩ := absorb_brackets absorbed
  intro shut
  rcases closed.mp shut with before | here
  · exact opened.mpr (.inl (ordered before))
  · exact opened.mpr (.inl (closing here))

theorem ordered_survey (surveyed : survey seen octets = .ok after) (ordered : seen.Ordered) :
    after.Ordered :=
  survey_keeps Survey.Ordered surveyed (fun _ _ _ _ => ordered_absorb) ordered

theorem opened_survey (surveyed : survey seen octets = .ok after) (opened : seen.opened = true) :
    after.opened = true := by
  refine survey_keeps (·.opened = true) surveyed
    (fun octet _ before next absorbed held => ?_) opened
  exact (absorb_brackets absorbed).1.mpr (.inl held)

theorem unclosed_survey (surveyed : survey seen octets = .ok after)
    (none : ']'.toUInt8 ∉ octets) (unclosed : ¬ seen.closed = true) : ¬ after.closed = true := by
  refine survey_keeps (¬ ·.closed = true) surveyed
    (fun octet member before next absorbed held => ?_) unclosed
  rw [(absorb_brackets absorbed).2.1, not_or]
  exact ⟨held, fun same => none (same ▸ member)⟩

/-- A bracket that opens in an authority is closed further on. -/
theorem bracket_closes {authority : Authority}
    (spelled : authority.octets = front ++ '['.toUInt8 :: back) : ']'.toUInt8 ∈ back := by
  obtain ⟨seen, surveyed, accepted⟩ := authority.survey_octets
  rw [octets] at spelled
  rw [spelled] at surveyed
  obtain ⟨before, first, surveyed⟩ := survey_append.mp surveyed
  obtain ⟨opening, absorbed, surveyed⟩ := survey_cons.mp surveyed
  obtain ⟨opened, closed, unopened, _⟩ := absorb_brackets absorbed
  -- Nothing has been opened yet, so nothing has been closed.
  have unclosed : ¬ opening.closed = true := by
    rw [closed, not_or]
    refine ⟨fun shut => ?_, by decide⟩
    have ordered : before.Ordered := ordered_survey first (by simp [Survey.Ordered])
    have earlier := ordered shut
    rw [unopened rfl] at earlier
    contradiction
  have shut : seen.closed = true := by
    simp only [Survey.accepts, Bool.and_eq_true, beq_iff_eq] at accepted
    rw [← accepted.1.1.1]
    exact opened_survey surveyed (opened.mpr (.inr rfl))
  by_contra none
  exact unclosed_survey surveyed none unclosed shut

end Brackets

/-- What is read as the host of an authority is one. -/
theorem isHost_host (authority : Authority) : IsHost (host authority.octets) := by
  have free := not_mem_address authority.octets
  obtain ⟨front, spelled⟩ := address_suffix authority.octets
  rw [host]
  generalize address authority.octets = octets at free spelled
  by_cases opened : octets.head? = some '['.toUInt8
  · rw [if_pos opened]
    obtain ⟨rest, rfl⟩ := List.head?_eq_some_iff.mp opened
    obtain ⟨inner, back, rfl, once⟩ := List.eq_append_cons_of_mem (bracket_closes spelled.symm)
    rw [← List.cons_append, take_bracketed once]
    refine .bracketed once fun inside => free ?_
    exact List.mem_cons_of_mem _ (List.mem_append_left _ inside)
  · rw [if_neg opened]
    have part := List.takeWhile_prefix (l := octets) (· != ':'.toUInt8)
    refine .name ?bare ?short fun inside => free (part.subset inside)
    case bare =>
      intro start
      obtain ⟨rest, named⟩ := List.head?_eq_some_iff.mp start
      obtain ⟨tail, whole⟩ := part
      rw [named] at whole
      exact opened (whole ▸ rfl)
    case short => exact fun inside => absurd (List.mem_takeWhile_imp inside) (by decide)

theorem address_eq_destination {octets : Bytes} (spelled : IsDestination (address octets)) :
    address octets = destination octets := by
  rw [← destination_address, destination_eq_self spelled]

example :
    destination (Bytes.ofText "user:pass@[::1]:8443") = Bytes.ofText "[::1]:8443" := by decide

/-- An authority spells where a client connects to just if it is a host with at most a port, and
nothing stands before that. -/
theorem eq_destination_iff (authority : Authority) :
    authority.octets = destination authority.octets ↔
      userInformation authority.octets = none ∧ IsDestination (address authority.octets) := by
  have named := authority.isHost_host
  generalize authority.octets = octets at named
  constructor
  · intro spelled
    have plain : IsDestination octets := by
      rw [spelled, destination]
      cases read : port? octets with
      | none =>
          rw [Option.elim_none, List.append_nil]
          exact .host named
      | some port =>
          rw [Option.elim_some]
          exact .ported named (Option.filter_eq_some_iff.mp read).2
    refine ⟨userInformation_eq_none.mpr plain.free, ?_⟩
    rwa [address_eq_self plain.free]
  · rintro ⟨none, spelled⟩
    rw [← address_eq_destination spelled, address_eq_self (userInformation_eq_none.mp none)]

theorem isReadable_octets (authority : Authority) : authority.octets.IsReadable :=
  fun _ member => Bytes.of_class (isSurveyed_of_mem member) (by decide +kernel)

end Authority

namespace Signer

variable {signer : Signer} {request : Request} {body : Option Bytes} {credential : Credential}
  {placement : Placement} {clock : Clock} {output : SigningOutput}

theorem host_added
    (done : (signer.sign request body credential placement clock).result = .ok output)
    (missing : request.headers.values .host = []) :
    ∃ authority ∈ request.uri.authority, ∃ canonical,
      (signer.sign request body credential placement clock).request.headers.values .host =
        [authority.hostValue] ∧
      (signer.sign request body credential placement clock).Covers credential output canonical ∧
      (.host, authority.text) ∈ canonical.headers := by
  obtain ⟨draft, hash, canonical, prepared, built, placed, _, _, covered⟩ := course_of_done done
  obtain ⟨authority, known, values⟩ := (carried_of_done done).missing missing
  refine ⟨authority, known, canonical, values, covered, ?_⟩
  obtain ⟨line, _, member⟩ := Canonical.line_of_present built (by decide) (prepare_host prepared)
  obtain ⟨pieces, rfl, octets⟩ := pieces_of_line placed built member
  rw [values] at octets
  obtain ⟨piece, rfl, spelled⟩ := List.map_eq_singleton_iff.mp octets
  obtain rfl := Bytes.ofText_injective spelled
  exact member

/-- The host that is added to a request is the authority as it is spelled. That is where a client
connects to just if the authority is a host with at most a port; user information that stands before
it is sent, signed and logged with it. -/
theorem added_host_iff (signing : Signing)
    (called : signer.sign request body credential placement clock = signing)
    (done : signing.result = .ok output) (missing : request.headers.values .host = []) :
    ∃ authority ∈ request.uri.authority, ∃ canonical,
      signing.request.headers.values .host = [authority.hostValue] ∧
      signing.Covers credential output canonical ∧
      (.host, authority.text) ∈ canonical.headers ∧
      (authority.hostValue.octets = Authority.destination authority.octets ↔
        Authority.userInformation authority.octets = none ∧
          Authority.IsDestination (Authority.address authority.octets)) ∧
      ∀ user ∈ Authority.userInformation authority.octets,
        authority.hostValue.octets = user ++ '@'.toUInt8 :: Authority.address authority.octets ∧
          (Authority.IsDestination (Authority.address authority.octets) →
            Authority.address authority.octets = Authority.destination authority.octets) := by
  subst called
  obtain ⟨authority, known, canonical, values, covered, line⟩ := host_added done missing
  refine ⟨authority, known, canonical, values, covered, line, authority.eq_destination_iff, ?_⟩
  intro user held
  rcases Authority.address_cases authority.octets with ⟨none, _⟩ | ⟨other, found, spelled, _⟩
  · rw [none] at held
    contradiction
  · obtain rfl := Option.some.inj (found.symm.trans held)
    exact ⟨spelled, Authority.address_eq_destination⟩

theorem inserts_cases {authority : Authority} {hash : PayloadHash} {scope : Scope}
    {name : HeaderName} {text : String}
    (written : signer.inserts request credential authority hash scope name = some text) :
    text = hash.text ∨ text ∈ credential.sessionToken ∨ text = scope.datetime ∨
      text = authority.text := by
  unfold inserts at written
  split_ifs at written with checksum loud token date host
  · exact .inl (Option.some.inj written).symm
  · exact .inr (.inl written)
  · exact .inr (.inr (.inl (Option.some.inj written).symm))
  · exact .inr (.inr (.inr (Option.some.inj written).symm))

-- An errand to any authority. Its payload is left out, so that no digest has to be calculated.
def errandTo (authority : Authority) : Request :=
  { errand .https .empty with
    uri := { (errand .https .empty).uri with authority := some authority } }

def sentTo (authority : Authority) : Signing :=
  gappedSigner.sign (errandTo authority) none listerKeys .header ⟨Instant.epoch, []⟩

theorem target_errandTo (authority : Authority) : (errandTo authority).target = "/" := by
  have none : Canonical.sortedQuery (errandTo authority).uri.pathAndQuery.pairs = [] := by
    simp [Canonical.sortedQuery, errandTo, errand, PathAndQuery.pairs, PathAndQuery.blank]
  rw [Request.target, none, if_pos (by simp)]
  rfl

/-- Such an errand is signed, whatever its authority is. -/
theorem sentTo_done (authority : Authority) :
    ∃ output, (sentTo authority).result = .ok output := by
  apply done_of_signable
  refine ⟨by decide, by decide, by simp [listerKeys],
    ⟨authority, .unsigned, rfl, .unsigned rfl rfl, ?readable⟩, ⟨"/", ?path⟩, ?names, ?short,
    .inl ⟨[], ?start⟩⟩
  case readable =>
    intro name _ octets member
    rw [inserted] at member
    split at member
    · next text written =>
        rw [List.mem_singleton.mp member]
        rcases inserts_cases written with rfl | token | rfl | rfl
        · exact readable_of_all rfl
        · contradiction
        · exact Instant.readable_datetimeText _
        · exact authority.isReadable_octets
    · contradiction
  case path =>
    have decoded : Bytes.ofText "/" = Percent.decode (Bytes.ofText "/") := by decide
    exact decoded
  case names =>
    simp only [Sendable, ← List.all_eq_true]
    exact ⟨rfl, rfl, rfl⟩
  case short =>
    rw [target_errandTo]
    decide
  case start =>
    have rooted : Bytes.ofText "/" = ['/'.toUInt8] := by decide
    exact rooted

-- An address in brackets, with a port.
def loopback : Authority := ⟨"[::1]:8443", by decide⟩

theorem loopback_added : ∃ output canonical, (errandTo loopback).headers.values .host = [] ∧
    (sentTo loopback).result = .ok output ∧
    (sentTo loopback).Covers listerKeys output canonical ∧
    (sentTo loopback).request.headers.values .host = [loopback.hostValue] ∧
    (.host, "[::1]:8443") ∈ canonical.headers ∧
    loopback.hostValue.octets = Authority.destination loopback.octets := by
  obtain ⟨output, done⟩ := sentTo_done loopback
  obtain ⟨authority, known, canonical, values, covered, line, spelled, _⟩ :=
    added_host_iff (sentTo loopback) rfl done rfl
  obtain rfl : loopback = authority := Option.some.inj known
  refine ⟨output, canonical, rfl, done, covered, values, line, spelled.mpr ⟨by decide, ?_⟩⟩
  have named : Authority.IsHost ('['.toUInt8 :: Bytes.ofText "::1" ++ [']'.toUInt8]) :=
    .bracketed (by decide) (by decide)
  have numbered : Authority.isPort (Bytes.ofText "8443") = true := by decide
  exact .ported named numbered

-- A name and a password in front of a host.
def guarded : Authority := ⟨"user:pass@bucket.test", by decide⟩

/-- The password is sent, signed and logged, and a client connects to the host without it. -/
theorem password_signed : ∃ output canonical, (errandTo guarded).headers.values .host = [] ∧
    (sentTo guarded).result = .ok output ∧
    (sentTo guarded).Covers listerKeys output canonical ∧
    (.host, "user:pass@bucket.test") ∈ canonical.headers ∧
    (∃ value, (sentTo guarded).request.headers.values .host = [value] ∧
      value.octets = Bytes.ofText "user:pass@bucket.test") ∧
    Authority.userInformation guarded.octets = some (Bytes.ofText "user:pass") ∧
    Authority.destination guarded.octets = Bytes.ofText "bucket.test" := by
  obtain ⟨output, done⟩ := sentTo_done guarded
  obtain ⟨authority, known, canonical, values, covered, line⟩ := host_added done rfl
  obtain rfl : guarded = authority := Option.some.inj known
  exact ⟨output, canonical, rfl, done, covered, line, ⟨_, values, rfl⟩, by decide, by decide⟩

end Signer

end SigV4
