import Columnar.Number.Digits

/-! Dates, timestamps and intervals with their written forms. A year of four digits has no sign; a
second after the last of a minute is a leap second and is written as second 60. -/
namespace Columnar

/-- A day of the proleptic Gregorian calendar, in any year. -/
structure Date where
  year : Int
  month : Nat
  day : Nat
  deriving DecidableEq, Repr

/-- A moment without a time zone. In a leap second `nanosecond` counts on from a thousand million. -/
structure Timestamp where
  date : Date
  hour : Nat
  minute : Nat
  second : Nat
  nanosecond : Nat
  deriving DecidableEq, Repr

/-- A moment of the world, told by the date and the time at the zero meridian. -/
structure Instant where
  atZeroMeridian : Timestamp
  deriving DecidableEq, Repr

/-- Months, days and microseconds are kept apart: none has a fixed length in terms of another. -/
structure Interval where
  months : Int32
  days : Int32
  microseconds : Int64
  deriving DecidableEq

namespace Date

/-- Years from 0 to 9999 have four digits; others carry their sign. -/
def yearText (year : Int) : String :=
  let digits := Number.padded 4 year.natAbs
  if year < 0 then "-" ++ digits else if 9999 < year then "+" ++ digits else digits

def text (d : Date) : String :=
  yearText d.year ++ "-" ++ Number.padded 2 d.month ++ "-" ++ Number.padded 2 d.day

end Date

namespace Timestamp

/-- The fewest of 3, 6 or 9 digits that are exact, and none for a whole second. -/
def fractionText (nanosecond : Nat) : String :=
  if nanosecond = 0 then ""
  else if nanosecond % 1000000 = 0 then "." ++ Number.padded 3 (nanosecond / 1000000)
  else if nanosecond % 1000 = 0 then "." ++ Number.padded 6 (nanosecond / 1000)
  else "." ++ Number.padded 9 nanosecond

def text (t : Timestamp) : String :=
  t.date.text ++ " " ++ Number.padded 2 t.hour ++ ":" ++ Number.padded 2 t.minute ++ ":" ++
    Number.padded 2 (t.second + t.nanosecond / 1000000000) ++
    fractionText (t.nanosecond % 1000000000)

end Timestamp

namespace Interval

def text (i : Interval) : String :=
  "INTERVAL " ++ Number.signed i.months.toInt ++ " MONTHS " ++ Number.signed i.days.toInt ++
    " DAYS " ++ Number.signed i.microseconds.toInt ++ " MICROSECONDS"

end Interval

end Columnar
