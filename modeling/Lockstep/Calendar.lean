import Lockstep.Numeral.Layout

/-!
# The civil calendar

A `Moment` is a date of the years 1 … 9999 in the Gregorian calendar and a time of day to the
microsecond.  `Moment.ofParts` checks its parts in order; `Moment.instant` counts the
microseconds since the start of year 1, and `Moment.ofInstant?` goes back.
-/

namespace Lockstep

/-- The first part of a date and time that is out of its range. -/
inductive CalendarFault
  | year (value : Int)
  | month
  | day
  | hour
  | minute
  | second
  | microsecond
  deriving DecidableEq, Repr

/-- A date and a time of day. -/
structure Moment where
  year : Nat
  month : Nat
  day : Nat
  hour : Nat
  minute : Nat
  second : Nat
  microsecond : Nat
  deriving DecidableEq, Repr

namespace Calendar

/-- Every fourth year is a leap year, of the centuries every fourth. -/
def isLeap (year : Nat) : Bool :=
  year % 4 == 0 && (year % 100 != 0 || year % 400 == 0)

/-- How many days a month has. -/
def daysInMonth (year month : Nat) : Nat :=
  if month == 2 then (if isLeap year then 29 else 28)
  else if month == 4 || month == 6 || month == 9 || month == 11 then 30
  else 31

/-- The days of the years before `year`, from year 1 on. -/
def daysBeforeYear (year : Nat) : Nat :=
  let y := year - 1
  y * 365 + y / 4 - y / 100 + y / 400

/-- The days of the months of `year` before `month`. -/
def daysBeforeMonth (year month : Nat) : Nat :=
  (List.range (month - 1)).foldl (fun n m => n + daysInMonth year (m + 1)) 0

/-- The year of a day counted from the start of year 1, and the day in it, from 0. -/
def yearOfDay (day : Nat) : Nat × Nat :=
  let quad := day % 146097
  let century := quad % 36524
  let four := century % 1461
  let year := day / 146097 * 400 + quad / 36524 * 100 + century / 1461 * 4 + four / 365 + 1
  if quad / 36524 == 4 || four / 365 == 4 then (year - 1, 365) else (year, four % 365)

/-- The month of a day of a year and the day in it, both from 1, looking at `fuel` months. -/
def monthOfDay (year : Nat) : (fuel month day : Nat) → Nat × Nat
  | 0, month, day => (month, day + 1)
  | f + 1, month, day =>
    let n := daysInMonth year month
    if day < n then (month, day + 1) else monthOfDay year f (month + 1) (day - n)

/-- The microseconds of a day. -/
def microsPerDay : Nat := 86400000000

end Calendar

namespace Moment

open Calendar

/-- The moment with the given parts, or the first part out of range. -/
def ofParts (year month day hour minute second microsecond : Int) :
    Except CalendarFault Moment :=
  if year < 1 || 9999 < year then .error (.year year)
  else if month < 1 || 12 < month then .error .month
  else if day < 1 || Int.ofNat (daysInMonth year.toNat month.toNat) < day then .error .day
  else if hour < 0 || 23 < hour then .error .hour
  else if minute < 0 || 59 < minute then .error .minute
  else if second < 0 || 59 < second then .error .second
  else if microsecond < 0 || 999999 < microsecond then .error .microsecond
  else .ok ⟨year.toNat, month.toNat, day.toNat, hour.toNat, minute.toNat, second.toNat,
    microsecond.toNat⟩

/-- The days since the start of year 1. -/
def dayNumber (m : Moment) : Nat :=
  daysBeforeYear m.year + daysBeforeMonth m.year m.month + (m.day - 1)

/-- The microseconds since the start of year 1. -/
def instant (m : Moment) : Int :=
  Int.ofNat ((((m.dayNumber * 24 + m.hour) * 60 + m.minute) * 60 + m.second) * 1000000 +
    m.microsecond)

/-- The moment so many microseconds after the start of year 1, unless it falls outside the
years 1 … 9999. -/
def ofInstant? (i : Int) : Option Moment :=
  if i < 0 then none
  else
    let n := i.toNat
    let micros := n % microsPerDay
    let y := yearOfDay (n / microsPerDay)
    if 9999 < y.1 then none
    else
      let m := monthOfDay y.1 12 1 y.2
      some ⟨y.1, m.1, m.2, micros / 3600000000, micros / 60000000 % 60, micros / 1000000 % 60,
        micros % 1000000⟩

/-- The date, as `YYYY-MM-DD`. -/
def dateText (m : Moment) : List Char :=
  zeroPad 4 (natText m.year) ++ '-' :: zeroPad 2 (natText m.month) ++
    '-' :: zeroPad 2 (natText m.day)

/-- The time of day to the second, as `hh:mm:ss`. -/
def timeText (m : Moment) : List Char :=
  zeroPad 2 (natText m.hour) ++ ':' :: zeroPad 2 (natText m.minute) ++
    ':' :: zeroPad 2 (natText m.second)

/-- Date and time to the millisecond; the microseconds below it are cut off. -/
def milliText (m : Moment) : List Char :=
  m.dateText ++ 'T' :: m.timeText ++ '.' :: zeroPad 3 (natText (m.microsecond / 1000))

end Moment

end Lockstep
