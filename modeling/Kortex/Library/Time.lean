import Kortex.Library.Text

/-
This file models the timestamps of Python's `datetime` in UTC.
-/

namespace Kortex

/-- A timestamp with a time zone is a number of microseconds since the epoch. -/
abbrev Instant := Int

namespace Instant

/-- This is the proleptic Gregorian date of a number of days since the epoch. -/
def civil (days : Int) : Int × Int × Int :=
  let shifted := days + 719468
  let era := shifted / 146097
  let dayOfEra := shifted % 146097
  let yearOfEra := (dayOfEra - dayOfEra / 1460 + dayOfEra / 36524 - dayOfEra / 146096) / 365
  let dayOfYear := dayOfEra - (365 * yearOfEra + yearOfEra / 4 - yearOfEra / 100)
  let march := (5 * dayOfYear + 2) / 153
  let day := dayOfYear - (153 * march + 2) / 5 + 1
  let month := if march < 10 then march + 3 else march - 9
  (yearOfEra + era * 400 + (if month ≤ 2 then 1 else 0), month, day)

def padZero (width : Nat) (n : Int) : Str :=
  List.replicate (width - (Str.ofInt n).length) '0' ++ Str.ofInt n

/-- This is `datetime.isoformat`, which leaves out the microseconds when they are zero. -/
def isoformat (t : Instant) : Str :=
  let (year, month, day) := civil (t / 86400000000)
  let micros := t % 86400000000
  let fraction := if micros % 1000000 = 0 then [] else '.' :: padZero 6 (micros % 1000000)
  padZero 4 year ++ "-" ++ padZero 2 month ++ "-" ++ padZero 2 day ++ "T" ++
    padZero 2 (micros / 3600000000) ++ ":" ++ padZero 2 (micros / 60000000 % 60) ++ ":" ++
    padZero 2 (micros / 1000000 % 60) ++ fraction ++ "+00:00"

example : isoformat 1709210096000789 = "2024-02-29T12:34:56.000789+00:00".toList := by decide

end Instant
end Kortex
