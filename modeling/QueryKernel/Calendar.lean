/-!
# Dates, times of day and offsets

Local calendar fields, the moment they denote under an offset from Greenwich, and their texts.
-/

namespace QueryKernel

/-- A date of the proleptic Gregorian calendar. -/
structure Date where
  year : Int
  month : Nat
  day : Nat
  deriving DecidableEq

/-- A time of day with nanoseconds.  Within a leap second, which follows a second 59, there are
1000000000 nanoseconds or more. -/
structure TimeOfDay where
  hour : Nat
  minute : Nat
  second : Nat
  nanosecond : Nat
  deriving DecidableEq

/-- Seconds east of Greenwich. -/
abbrev Offset := Int

/-- A date and a time of day, local to an offset. -/
structure DateTime where
  date : Date
  time : TimeOfDay
  offset : Offset

/-- A number with at least `width` digits. -/
def paddedDigits (width n : Nat) : String :=
  let digits := toString n
  "".pushn '0' (width - digits.length) ++ digits

namespace Date

/-- Days from 1 March of the year 0. -/
def dayNumber (d : Date) : Int :=
  let year := if d.month ≤ 2 then d.year - 1 else d.year
  let month := (d.month + 9) % 12
  365 * year + year.fdiv 4 - year.fdiv 100 + year.fdiv 400 + ((153 * month + 2) / 5 : Nat) +
    (d.day : Int) - 1

/-- Order in time. -/
def compare (a b : Date) : Ordering := Ord.compare a.dayNumber b.dayNumber

/-- The year has four digits, and a sign unless it lies between 0 and 9999. -/
def yearText (year : Int) : String :=
  let sign := if year < 0 then "-" else if 9999 < year then "+" else ""
  sign ++ paddedDigits 4 year.natAbs

/-- Year, month and day, separated by hyphens. -/
def text (d : Date) : String :=
  yearText d.year ++ "-" ++ paddedDigits 2 d.month ++ "-" ++ paddedDigits 2 d.day

end Date

namespace TimeOfDay

/-- Seconds since midnight, without leap seconds. -/
def seconds (t : TimeOfDay) : Nat := (t.hour * 60 + t.minute) * 60 + t.second

/-- Order in time.  A leap second comes before the second after it. -/
def compare (a b : TimeOfDay) : Ordering :=
  (Ord.compare a.seconds b.seconds).then (Ord.compare a.nanosecond b.nanosecond)

/-- Hours, minutes and whole seconds; a leap second has the number 60. -/
def text (t : TimeOfDay) : String :=
  paddedDigits 2 t.hour ++ ":" ++ paddedDigits 2 t.minute ++ ":" ++
    paddedDigits 2 (t.second + t.nanosecond / 1000000000)

end TimeOfDay

/-- The sign of an offset, and hours and minutes, of which there are `minutes` in all. -/
def offsetText (offset : Offset) (minutes : Nat) : String :=
  (if offset < 0 then "-" else "+") ++ paddedDigits 2 (minutes / 60) ++ ":" ++ paddedDigits 2 (minutes % 60)

/-- The suffix of a date or a time: nothing without an offset, and `Z` at Greenwich.  Seconds are cut off. -/
def zoneText : Option Offset → String
  | none => ""
  | some offset => if offset = 0 then "Z" else offsetText offset (offset.natAbs / 60)

namespace DateTime

/-- Seconds from a moment common to all offsets, without leap seconds. -/
def instant (t : DateTime) : Int := t.date.dayNumber * 86400 - t.offset + t.time.seconds

/-- Order in time.  A leap second comes before the second after it. -/
def compare (a b : DateTime) : Ordering :=
  (Ord.compare a.instant b.instant).then (Ord.compare a.time.nanosecond b.time.nanosecond)

/-- Local date, `T`, local time and numeric offset, to the nearest minute. -/
def text (t : DateTime) : String :=
  t.date.text ++ "T" ++ t.time.text ++ offsetText t.offset ((t.offset.natAbs + 30) / 60)

end DateTime

/-- The text of a duration of whole months and seconds: a sign, `P`, the parts that are not zero,
and a zero of seconds if there are none. -/
def durationText (months seconds : Int) : String :=
  let part (n : Nat) (unit : String) : String := if n = 0 then "" else toString n ++ unit
  let total := seconds.natAbs
  let rest := total % 86400
  let date := part (months.natAbs / 12) "Y" ++ part (months.natAbs % 12) "M" ++ part (total / 86400) "D"
  let time := part (rest / 3600) "H" ++ part (rest % 3600 / 60) "M" ++ part (rest % 60) "S"
  let sign := if months < 0 ∨ seconds < 0 then "-P" else "P"
  sign ++ date ++
    (if rest ≠ 0 then "T" ++ time else if months = 0 ∧ seconds = 0 then "T0S" else "")

end QueryKernel
