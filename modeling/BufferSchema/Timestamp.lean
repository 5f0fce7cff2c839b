/-!
# Dates and times of day

A moment by the calendar and the clock, as it stands in the header of a generated module.
-/

namespace BufferSchema

/-- A day of the calendar and a time of that day, to the second. -/
structure Timestamp where
  year : Int
  month : Nat
  day : Nat
  hour : Nat
  minute : Nat
  second : Nat
deriving DecidableEq, Repr

namespace Timestamp

/-- Whether a year of the Gregorian calendar has a 29th of February. -/
def isLeap (year : Int) : Bool :=
  (year % 4 == 0 && year % 100 != 0) || year % 400 == 0

/-- The number of days of a month. -/
def daysIn (year : Int) (month : Nat) : Nat :=
  if month = 2 then (if isLeap year then 29 else 28)
  else if month ∈ [4, 6, 9, 11] then 30
  else 31

/-- The first year in which dates are told. -/
def firstYear : Int := -262143

/-- The last year in which dates are told. -/
def lastYear : Int := 262142

/-- Whether there is such a day and such a time. -/
def exists? (t : Timestamp) : Bool :=
  firstYear ≤ t.year && t.year ≤ lastYear && 1 ≤ t.month && t.month ≤ 12 && 1 ≤ t.day &&
    t.day ≤ daysIn t.year t.month && t.hour < 24 && t.minute < 60 && t.second < 60

/-- A number with zeros in front, at least `width` digits long. -/
def padded (width n : Nat) : String :=
  let digits := toString n
  String.ofList (List.replicate (width - digits.length) '0') ++ digits

/-- The year with at least four digits. A year that needs more, or lies before the year 0, has a
sign. -/
def yearText (year : Int) : String :=
  if year < 0 then "-" ++ padded 4 year.natAbs
  else if 9999 < year then "+" ++ padded 4 year.natAbs
  else padded 4 year.natAbs

/-- The written form, `YEAR-MONTH-DAY HOUR:MINUTE:SECOND`. -/
def text (t : Timestamp) : String :=
  s!"{yearText t.year}-{padded 2 t.month}-{padded 2 t.day} " ++
    s!"{padded 2 t.hour}:{padded 2 t.minute}:{padded 2 t.second}"

end Timestamp

end BufferSchema
