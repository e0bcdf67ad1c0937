import SigV4.Proofs.DateText
import SigV4.Signature
/-!
Days and their keys. The date of a scope names one day of UTC, and its time stamp one second of that
day, with the leap second told from the one before it. A key is narrowed from the secret by one keyed
hash for each part of the scope, the date first: it is one key for the whole of a day, and two parts
that differ come to one key only where the keyed hash itself collides.
-/
namespace SigV4

namespace Calendar

def twoDigits (number : Nat) : String :=
  String.ofList [Nat.digitChar (number / 10), Nat.digitChar (number % 10)]

theorem padded_tried : ∀ number : Fin 100, padded 2 number.val = twoDigits number.val := by
  decide +kernel

theorem padded_eq_twoDigits {number : Nat} (short : number < 100) :
    padded 2 number = twoDigits number :=
  padded_tried ⟨number, short⟩

end Calendar

namespace Instant

/-- What a clock shows at an instant. The minute that ends in a leap second has a second 60. -/
structure Shows (instant : Instant) (hour minute second : Nat) : Prop where
  hour_lt : hour < 24
  minute_lt : minute < 60
  second_le : second ≤ 60
  leap : second = 60 ↔ 1000000000 ≤ instant.nanos
  count : (hour * 3600 + minute * 60 + second : Int) =
    instant.seconds % 86400 + if 1000000000 ≤ instant.nanos then 1 else 0

theorem shows_secondShown (instant : Instant) :
    instant.Shows (instant.secondOfDay / 3600) (instant.secondOfDay / 60 % 60)
      instant.secondShown := by
  have day : (instant.secondOfDay : Int) = instant.seconds % 86400 := by
    unfold secondOfDay
    omega
  rcases instant.secondShown_cases with ⟨leap, number, last⟩ | ⟨plain, number⟩
  · have nanos : 1000000000 ≤ instant.nanos := of_decide_eq_true leap
    exact ⟨by omega, by omega, by omega, by simp only [number, nanos], by rw [if_pos nanos]; omega⟩
  · have nanos : ¬ 1000000000 ≤ instant.nanos := of_decide_eq_false plain
    exact ⟨by omega, by omega, by omega, by omega, by rw [if_neg nanos]; omega⟩

theorem exists_shows (instant : Instant) :
    ∃ hour minute second, instant.Shows hour minute second ∧
      instant.timeText =
        Calendar.twoDigits hour ++ Calendar.twoDigits minute ++ Calendar.twoDigits second := by
  have shows := instant.shows_secondShown
  have hour := shows.hour_lt
  have minute := shows.minute_lt
  have second := shows.second_le
  refine ⟨_, _, _, shows, ?_⟩
  rw [← Calendar.padded_eq_twoDigits (by omega), ← Calendar.padded_eq_twoDigits (by omega),
    ← Calendar.padded_eq_twoDigits (by omega)]
  rfl

end Instant

namespace Signature

def startKey (secret : String) : Bytes := Bytes.ofText ("AWS4" ++ secret)

def narrowed (key : Bytes) : List Bytes → Bytes
  | [] => key
  | part :: rest => narrowed (Hmac.mac key part) rest

def hashed (key : Bytes) : List Bytes → List (Bytes × Bytes)
  | [] => []
  | part :: rest => (key, part) :: hashed (Hmac.mac key part) rest

def Collide (left right : List (Bytes × Bytes)) : Prop :=
  ∃ first ∈ left, ∃ second ∈ right,
    first ≠ second ∧ Hmac.mac first.1 first.2 = Hmac.mac second.1 second.2

theorem foldl_eq_narrowed (key : Bytes) (parts : List String) :
    parts.foldl (fun key part => Hmac.mac key (Bytes.ofText part)) key =
      narrowed key (parts.map Bytes.ofText) := by
  induction parts generalizing key with
  | nil => rfl
  | cons part rest ih => exact ih (Hmac.mac key (Bytes.ofText part))

theorem key_eq_narrowed (secret : String) (scope : Scope) :
    key secret scope = narrowed (startKey secret) (scope.parts.map Bytes.ofText) :=
  foldl_eq_narrowed (startKey secret) scope.parts

-- Induction on the parts: behind the first of them the keys are the same, so it is either the same
-- pair that was hashed to them, or a pair that collides with it.
theorem narrowed_unique {key other : Bytes} {parts others : List Bytes}
    (long : parts.length = others.length) (same : narrowed key parts = narrowed other others) :
    (key = other ∧ parts = others) ∨ Collide (hashed key parts) (hashed other others) := by
  induction parts generalizing key other others with
  | nil =>
      cases others with
      | nil => exact Or.inl ⟨same, rfl⟩
      | cons => contradiction
  | cons part rest ih =>
      cases others with
      | nil => contradiction
      | cons otherPart otherRest =>
          rcases ih (Nat.succ.inj long) same with
            ⟨keys, rfl⟩ | ⟨first, inLeft, second, inRight, collides⟩
          · by_cases pairs : (key, part) = (other, otherPart)
            · cases pairs
              exact Or.inl ⟨rfl, rfl⟩
            · exact Or.inr ⟨_, List.mem_cons_self, _, List.mem_cons_self, pairs, keys⟩
          · exact Or.inr ⟨first, List.mem_cons_of_mem _ inLeft, second,
              List.mem_cons_of_mem _ inRight, collides⟩

def keyed (secret : String) (scope : Scope) : List (Bytes × Bytes) :=
  hashed (startKey secret) (scope.parts.map Bytes.ofText)

/-- A key tells what it was narrowed to, unless the keyed hash collides on the way. -/
theorem key_binds {secret other : String} {left right : Scope}
    (same : key secret left = key other right) :
    (secret = other ∧ left.parts = right.parts) ∨ Collide (keyed secret left) (keyed other right) := by
  rw [key_eq_narrowed, key_eq_narrowed] at same
  have long : (left.parts.map Bytes.ofText).length = (right.parts.map Bytes.ofText).length := by
    simp [Scope.parts]
  refine (narrowed_unique long same).imp_left ?_
  rintro ⟨starts, parts⟩
  constructor
  · rw [startKey, startKey, Bytes.ofText_append, Bytes.ofText_append] at starts
    exact Bytes.ofText_injective (List.append_cancel_left starts)
  · exact (List.map_inj_right fun _ _ => Bytes.ofText_injective).mp parts

/-- What makes the key of a scope: a text of its date is hashed first, and then what does not depend
on the time. -/
theorem key_dated (secret : String) (scope : Scope) :
    key secret scope = narrowed (startKey secret)
      [Bytes.ofText scope.date, Bytes.ofText scope.region, Bytes.ofText scope.service,
        Bytes.ofText "aws4_request"] :=
  key_eq_narrowed secret scope

end Signature

namespace Scope

structure SamePlace (left right : Scope) : Prop where
  region : left.region = right.region
  service : left.service = right.service

/-- Days of UTC begin at the multiples of 86400 seconds. -/
def SameDay (left right : Scope) : Prop :=
  left.time.seconds / 86400 = right.time.seconds / 86400

instance (left right : Scope) : Decidable (left.SameDay right) :=
  inferInstanceAs (Decidable (_ = _))

/-- A leap second shares its count with the second before it. -/
def SameSecond (left right : Scope) : Prop :=
  left.time.seconds = right.time.seconds ∧
    (1000000000 ≤ left.time.nanos ↔ 1000000000 ≤ right.time.nanos)

/-- What is hashed first for the keys of two scopes are their dates, and all that follows is the
same; so they have one key on one day, and else one only where the keyed hash collides. -/
structure KeysFollowDays (secret : String) (left right : Scope) : Prop where
  narrowed : ∃ place,
    Signature.key secret left =
      Signature.narrowed (Signature.startKey secret) (Bytes.ofText left.date :: place) ∧
    Signature.key secret right =
      Signature.narrowed (Signature.startKey secret) (Bytes.ofText right.date :: place)
  kept : left.SameDay right → Signature.key secret left = Signature.key secret right
  changed : ¬ left.SameDay right → Bytes.ofText left.date ≠ Bytes.ofText right.date
  collides : ¬ left.SameDay right → Signature.key secret left = Signature.key secret right →
    Signature.Collide (Signature.keyed secret left) (Signature.keyed secret right)

variable {left right : Scope}

theorem date_eq_iff : left.date = right.date ↔ left.SameDay right := Instant.dateText_eq_iff

theorem datetime_eq_iff : left.datetime = right.datetime ↔ left.SameSecond right := by
  have leaps : (left.time.isLeap = right.time.isLeap) ↔
      (1000000000 ≤ left.time.nanos ↔ 1000000000 ≤ right.time.nanos) := by
    rw [Instant.isLeap, Instant.isLeap, decide_eq_decide]
  rw [SameSecond, ← leaps]
  exact Instant.datetimeText_eq_iff

theorem keys_follow_days (place : left.SamePlace right) (secret : String) :
    KeysFollowDays secret left right := by
  have first := Signature.key_dated secret left
  have other := Signature.key_dated secret right
  rw [← place.region, ← place.service] at other
  refine ⟨⟨_, first, other⟩, ?kept, ?changed, ?collides⟩
  case kept =>
    intro day
    rw [first, other, date_eq_iff.mpr day]
  case changed =>
    intro different dates
    exact different (date_eq_iff.mp (Bytes.ofText_injective dates))
  case collides =>
    intro different same
    rcases Signature.key_binds same with ⟨_, parts⟩ | collides
    · exact absurd (date_eq_iff.mp (List.cons.inj parts).1) different
    · exact collides

/-- The date of a scope names the day of its instant, and its time stamp the second, as the date with
what a clock shows; and the keys of one region and service follow the days. -/
theorem date_names_day (left right : Scope) :
    (left.date = right.date ↔ left.SameDay right) ∧
    (left.datetime = right.datetime ↔ left.SameSecond right) ∧
    (∃ hour minute second, left.time.Shows hour minute second ∧
      left.datetime = left.date ++ "T" ++ (Calendar.twoDigits hour ++ Calendar.twoDigits minute
        ++ Calendar.twoDigits second) ++ "Z") ∧
    (left.SamePlace right → ∀ secret, KeysFollowDays secret left right) := by
  refine ⟨date_eq_iff, datetime_eq_iff, ?clock, keys_follow_days⟩
  obtain ⟨hour, minute, second, shows, text⟩ := left.time.exists_shows
  refine ⟨hour, minute, second, shows, ?_⟩
  rw [← text]
  rfl

-- The year before the year zero ends in a leap second.
def lastNight : Instant :=
  ⟨-62167219201, 1500000000, by decide, by decide, by decide, by decide⟩

def lastMorning : Instant := ⟨-62167305600, 1, by decide, by decide, by decide, by decide⟩

def yearZero : Instant := ⟨-62167219200, 1, by decide, by decide, by decide, by decide⟩

/-- The leap second has the key of the day that it ends, and year zero begins with another date. -/
theorem year_zero_changes_date :
    let night : Scope := ⟨"us-east-1", "s3", lastNight⟩
    let morning : Scope := ⟨"us-east-1", "s3", lastMorning⟩
    let zero : Scope := ⟨"us-east-1", "s3", yearZero⟩
    night.datetime = "-00011231T235960Z" ∧ zero.datetime = "00000101T000000Z" ∧
      night.SamePlace morning ∧ night.SameDay morning ∧ ¬ night.SameDay zero ∧
      ∀ secret, Signature.key secret night = Signature.key secret morning ∧
        Bytes.ofText night.date ≠ Bytes.ofText zero.date := by
  intro night morning zero
  have day : night.SameDay morning := by decide
  have next : ¬ night.SameDay zero := by decide
  have early : night.SamePlace morning := ⟨rfl, rfl⟩
  have late : night.SamePlace zero := ⟨rfl, rfl⟩
  refine ⟨by decide +kernel, by decide +kernel, early, day, next, fun secret => ?_⟩
  exact ⟨((date_names_day night morning).2.2.2 early secret).kept day,
    ((date_names_day night zero).2.2.2 late secret).changed next⟩

end Scope

end SigV4
