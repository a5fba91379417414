import HeuristicTyping.Toml.Blank
import HeuristicTyping.Toml.Number

/-!
# Dates and times in TOML

A `Moment` is a day, a time of day, or a time of day on a day, the last with or without an offset
from universal time. The day has to be one of the Gregorian calendar, the seconds go up to 60 for
the sake of leap seconds, and of a fraction of a second nine digits count.
-/

set_option autoImplicit false

namespace HeuristicTyping

/-- A day of the calendar. -/
structure CalendarDate where
  year : Nat
  month : Nat
  day : Nat
deriving DecidableEq, Repr

/-- A time of day. -/
structure ClockTime where
  hour : Nat
  minute : Nat
  second : Nat
  nanosecond : Nat
deriving DecidableEq, Repr

/-- A date, a time or both. An offset is counted in minutes. -/
inductive Moment where
  | day (date : CalendarDate)
  | time (time : ClockTime)
  | dayTime (date : CalendarDate) (time : ClockTime) (offset : Option Int)
deriving DecidableEq, Repr

/-- Whether a year has a 29th of February. -/
def isLeapYear (year : Nat) : Bool :=
  year % 4 == 0 && (year % 100 != 0 || year % 400 == 0)

/-- The number of days of a month. -/
def daysInMonth (year month : Nat) : Nat :=
  if month = 2 then
    if isLeapYear year then 29 else 28
  else if month = 4 ∨ month = 6 ∨ month = 9 ∨ month = 11 then 30
  else 31

namespace Toml

/-- Reads a number of exactly so many digits. -/
def fixedDigits (count : Nat) (chars : List Char) : Option (Nat × List Char) :=
  let digits := chars.take count
  if digits.length = count ∧ digits.all (isDigitIn 10) then
    some (digitsValue 10 digits, chars.drop count)
  else none

/-- Reads a number of two digits within bounds. -/
def twoDigits (least greatest : Nat) (chars : List Char) : Option (Nat × List Char) := do
  let (value, rest) ← fixedDigits 2 chars
  if least ≤ value ∧ value ≤ greatest then some (value, rest) else none

/-- Reads a day. -/
def calendarDate (chars : List Char) : Option (CalendarDate × List Char) := do
  let (year, rest) ← fixedDigits 4 chars
  let (month, rest) ← twoDigits 1 12 (← expect? '-' rest)
  let (day, rest) ← twoDigits 1 (daysInMonth year month) (← expect? '-' rest)
  return (CalendarDate.mk year month day, rest)

/-- Reads the fraction of a second, in nanoseconds, if there is one. -/
def secondFraction (chars : List Char) : Nat × List Char :=
  match chars with
  | '.' :: rest =>
      match rest.takeWhile (isDigitIn 10) with
      | [] => (0, chars)
      | digits =>
          (digitsValue 10 ((digits ++ List.replicate 9 '0').take 9), rest.drop digits.length)
  | _ => (0, chars)

/-- Reads a time of day. -/
def clockTime (chars : List Char) : Option (ClockTime × List Char) := do
  let (hour, rest) ← twoDigits 0 23 chars
  let (minute, rest) ← twoDigits 0 59 (← expect? ':' rest)
  let (second, rest) ← twoDigits 0 60 (← expect? ':' rest)
  let (nanosecond, rest) := secondFraction rest
  return (ClockTime.mk hour minute second nanosecond, rest)

/-- Reads hours and minutes, as a number of minutes. -/
def minutes (chars : List Char) : Option (Nat × List Char) := do
  let (hour, rest) ← twoDigits 0 23 chars
  let (minute, rest) ← twoDigits 0 59 (← expect? ':' rest)
  return (60 * hour + minute, rest)

/-- Reads an offset from universal time. -/
def offset : Reader Int
  | 'Z' :: rest => some (0, rest)
  | 'z' :: rest => some (0, rest)
  | '+' :: rest => (minutes rest).map fun read => (signed false read.1, read.2)
  | '-' :: rest => (minutes rest).map fun read => (signed true read.1, read.2)
  | _ => none

/-- Whether a character may stand between a day and a time. -/
def isTimeMark (char : Char) : Bool := char == 'T' || char == 't' || char == ' '

/-- Reads the time that may follow a day, with its offset. A blank may also stand behind a day
without time. -/
def timeOn (date : CalendarDate) (chars : List Char) : Moment × List Char :=
  match chars with
  | [] => (.day date, [])
  | mark :: rest =>
      match if isTimeMark mark then clockTime rest else none with
      | none => (.day date, chars)
      | some (time, rest) =>
          match offset rest with
          | some (minutes, rest) => (.dayTime date time (some minutes), rest)
          | none => (.dayTime date time none, rest)

/-- Reads a date, a time or both. -/
def dateOrTime (chars : List Char) : Option (Moment × List Char) :=
  match calendarDate chars with
  | some (date, rest) => some (timeOn date rest)
  | none => (clockTime chars).map fun read => (.time read.1, read.2)

end Toml

end HeuristicTyping
