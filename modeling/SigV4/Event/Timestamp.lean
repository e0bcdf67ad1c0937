import SigV4.Calendar
/-!
Timestamps of event headers. Their text is that of RFC 3339 for the years 1 to 9999, and the plain
count of seconds for any other.
-/
namespace SigV4.Event

structure Timestamp where
  seconds : Int
  nanos : Nat
  nanos_lt : nanos < 1000000000
  deriving DecidableEq, Repr

namespace Timestamp

def ofParts? (seconds : Int) (nanos : Nat) : Option Timestamp :=
  if nanos_lt : nanos < 1000000000 then some ⟨seconds, nanos, nanos_lt⟩ else none

def ofMillis (millis : Int) : Timestamp :=
  ⟨millis / 1000, (millis % 1000).toNat * 1000000, by omega⟩

def millis (timestamp : Timestamp) : Int :=
  timestamp.seconds * 1000 + timestamp.nanos / 1000000

def dropZeros (digits : String) : String :=
  String.ofList ((digits.toList.reverse.dropWhile (· == '0')).reverse)

def fraction (width number : Nat) : String :=
  if number = 0 then "" else "." ++ dropZeros (Calendar.padded width number)

def text (timestamp : Timestamp) : String :=
  let date := Calendar.dateOfDay (timestamp.seconds / 86400)
  let second := (timestamp.seconds % 86400).toNat
  if 1 ≤ date.year ∧ date.year ≤ 9999 then
    Calendar.yearText date.year ++ "-" ++ Calendar.padded 2 date.month ++ "-"
      ++ Calendar.padded 2 date.day ++ "T" ++ Calendar.padded 2 (second / 3600) ++ ":"
      ++ Calendar.padded 2 (second / 60 % 60) ++ ":" ++ Calendar.padded 2 (second % 60)
      ++ fraction 6 (timestamp.nanos / 1000) ++ "Z"
  else toString timestamp.seconds ++ fraction 9 timestamp.nanos

end Timestamp

end SigV4.Event
