import SigV4.Bytes
/-!
Days of the proleptic Gregorian calendar. Days are counted from 1970-01-01 and years from the year
zero; internally a year begins on the first of March, which puts the leap day at its end.
-/
namespace SigV4.Calendar

structure Date where
  year : Int
  month : Nat
  day : Nat
  deriving DecidableEq, Repr

/-- The date of a day. An era is the 400 years after which the calendar repeats; 719468 days lie
between the first day of an era and 1970-01-01. -/
def dateOfDay (day : Int) : Date :=
  let shifted := day + 719468
  let era := shifted / 146097
  let dayOfEra := shifted % 146097
  let yearOfEra :=
    (dayOfEra - dayOfEra / 1460 + dayOfEra / 36524 - dayOfEra / 146096) / 365
  let dayOfYear := dayOfEra - (365 * yearOfEra + yearOfEra / 4 - yearOfEra / 100)
  let march := (5 * dayOfYear + 2) / 153
  let month := if march < 10 then march + 3 else march - 9
  { year := yearOfEra + era * 400 + (if month ≤ 2 then 1 else 0)
    month := month.toNat
    day := (dayOfYear - (153 * march + 2) / 5 + 1).toNat }

def padded (width number : Nat) : String :=
  let digits := Nat.toDigits 10 number
  String.ofList (List.replicate (width - digits.length) '0' ++ digits)

/-- Four digits; a year outside 0 to 9999 has a sign in front of at least four. -/
def yearText (year : Int) : String :=
  if year < 0 then "-" ++ padded 4 year.natAbs
  else if year ≤ 9999 then padded 4 year.natAbs
  else "+" ++ padded 4 year.natAbs

def Date.compact (date : Date) : String :=
  yearText date.year ++ padded 2 date.month ++ padded 2 date.day

end SigV4.Calendar
