/-!
# Points in time

An `Instant` counts from the start of the year 1970.  `Instant.date` is the day it is on in the
common calendar, and `toText` and `toLogText` are its two written forms.
-/

namespace ArtifactGraph

/-- A point in time: whole seconds since the start of 1970, and a part of a second. -/
structure Instant where
  seconds : Nat
  nanoseconds : Nat := 0
  deriving DecidableEq, Repr

/-- A day. -/
structure Date where
  year : Nat
  month : Nat
  day : Nat
  deriving DecidableEq, Repr

namespace Instant

/-- The date of a day, counted from the start of 1970. Years are counted from March on, so that the
day that some years have more than others is their last one; 146097 is the number of days of four
hundred years. -/
def dateOfDay (days : Nat) : Date :=
  let shifted := days + 719468
  let era := shifted / 146097
  let dayOfEra := shifted % 146097
  let yearOfEra := (dayOfEra - dayOfEra / 1460 + dayOfEra / 36524 - dayOfEra / 146096) / 365
  let dayOfYear := dayOfEra - (365 * yearOfEra + yearOfEra / 4 - yearOfEra / 100)
  let shiftedMonth := (5 * dayOfYear + 2) / 153
  let month := if shiftedMonth < 10 then shiftedMonth + 3 else shiftedMonth - 9
  let year := yearOfEra + era * 400
  { year := if month ≤ 2 then year + 1 else year, month,
    day := dayOfYear - (153 * shiftedMonth + 2) / 5 + 1 }

/-- The date of an instant. -/
def date (i : Instant) : Date := dateOfDay (i.seconds / 86400)

/-- A number with a least number of digits. -/
def padded (width n : Nat) : String :=
  let digits := toString n
  String.ofList (List.replicate (width - digits.length) '0') ++ digits

/-- The date and the time of day, without the part of the second. -/
def dateTime (i : Instant) : String :=
  let d := i.date
  let s := i.seconds % 86400
  padded 4 d.year ++ "-" ++ padded 2 d.month ++ "-" ++ padded 2 d.day ++ "T" ++
    padded 2 (s / 3600) ++ ":" ++ padded 2 (s / 60 % 60) ++ ":" ++ padded 2 (s % 60)

/-- An instant in a report. -/
def toText (i : Instant) : String := i.dateTime ++ "." ++ padded 9 i.nanoseconds ++ "+00:00"

/-- An instant in the log. -/
def toLogText (i : Instant) : String :=
  i.dateTime ++ "." ++ padded 6 (i.nanoseconds / 1000) ++ "Z"

end Instant

end ArtifactGraph
