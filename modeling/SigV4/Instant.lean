import SigV4.Calendar
/-!
Instants of UTC with nanoseconds, and the clock that hands them out. A nanosecond count of one
second or more reads second 60 of a minute that ends in a leap second.
-/
namespace SigV4

/-- Seconds are counted from 1970-01-01 and lie in the years -262143 to 262142. A nanosecond count
of one second or more stands on second 59 of a minute only; readings that have one on another
second, which a clock of the caller's own may hand out, are not modelled. -/
structure Instant where
  seconds : Int
  nanos : Nat
  nanos_lt : nanos < 2000000000
  leap_at_end : 1000000000 ≤ nanos → seconds % 60 = 59
  not_before : -8334601228800 ≤ seconds
  not_after : seconds ≤ 8210266876799

namespace Instant

def ofUnix? (seconds : Int) (nanos : Nat) : Option Instant :=
  if valid : (nanos < 2000000000 ∧ (1000000000 ≤ nanos → seconds % 60 = 59)) ∧
      -8334601228800 ≤ seconds ∧ seconds ≤ 8210266876799 then
    some ⟨seconds, nanos, valid.1.1, valid.1.2, valid.2.1, valid.2.2⟩
  else none

def epoch : Instant := ⟨0, 0, by decide, by decide, by decide, by decide⟩

def day (instant : Instant) : Int := instant.seconds / 86400

def secondOfDay (instant : Instant) : Nat := (instant.seconds % 86400).toNat

def isLeap (instant : Instant) : Bool := 1000000000 ≤ instant.nanos

def dateText (instant : Instant) : String := (Calendar.dateOfDay instant.day).compact

def timeText (instant : Instant) : String :=
  let second := instant.secondOfDay
  Calendar.padded 2 (second / 3600) ++ Calendar.padded 2 (second / 60 % 60)
    ++ Calendar.padded 2 (second % 60 + if instant.isLeap then 1 else 0)

def datetimeText (instant : Instant) : String :=
  instant.dateText ++ "T" ++ instant.timeText ++ "Z"

/-- Whole milliseconds since 1970; those of a leap second run on into the next second. -/
def millis (instant : Instant) : Int := instant.seconds * 1000 + instant.nanos / 1000000

end Instant

/-- A source of instants: `now` is handed out next, `later` after it, and the last of all of them
for ever. -/
structure Clock where
  now : Instant
  later : List Instant

namespace Clock

def ofList? : List Instant → Option Clock
  | [] => none
  | now :: later => some ⟨now, later⟩

def tick (clock : Clock) : Clock :=
  match clock.later with
  | [] => clock
  | next :: rest => ⟨next, rest⟩

end Clock

end SigV4
