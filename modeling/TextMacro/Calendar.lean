import TextMacro.Text.Decimal

/-!
# Calendar dates

Instants counted from 1 January 1970, as dates of the proleptic Gregorian calendar in universal
time.
-/

namespace TextMacro

/-- A day of the calendar. -/
structure Date where
  year : Int
  /-- The month, from 1 to 12. -/
  month : Nat
  /-- The day of the month, from 1. -/
  day : Nat
  deriving DecidableEq, Repr

namespace Date

/-- The first day of the range of dates, in days from 1 January 1970. -/
def firstDay : Int := -96465292

/-- The last day of the range of dates, in days from 1 January 1970. -/
def lastDay : Int := 95026236

/-- The date `days` days after 1 January 1970.

Years are counted from 1 March, so that the leap day is the last of its year, and in cycles of 400
years, which all have 146097 days. -/
def ofDays (days : Int) : Date :=
  let shifted := days + 719468
  let era := shifted.fdiv 146097
  let dayOfEra := (shifted.fmod 146097).toNat
  let yearOfEra :=
    (dayOfEra - dayOfEra / 1460 + dayOfEra / 36524 - dayOfEra / 146096) / 365
  let dayOfYear := dayOfEra - (365 * yearOfEra + yearOfEra / 4 - yearOfEra / 100)
  let monthFromMarch := (5 * dayOfYear + 2) / 153
  let day := dayOfYear - (153 * monthFromMarch + 2) / 5 + 1
  let month := if monthFromMarch < 10 then monthFromMarch + 3 else monthFromMarch - 9
  let year : Int := yearOfEra + era * 400
  ⟨if month ≤ 2 then year + 1 else year, month, day⟩

/-- The short names of the days of the week; 1 January 1970 was a Thursday. -/
def weekdays : List String := ["Thu", "Fri", "Sat", "Sun", "Mon", "Tue", "Wed"]

/-- The short names of the months. -/
def months : List String :=
  ["Jan", "Feb", "Mar", "Apr", "May", "Jun", "Jul", "Aug", "Sep", "Oct", "Nov", "Dec"]

/-- The text of a year: four digits, and a sign when it has not four digits. -/
def renderYear (year : Int) : String :=
  if 0 ≤ year && year ≤ 9999 then Decimal.renderPadded 4 year.toNat
  else (if year < 0 then "-" else "+") ++ Decimal.renderPadded 4 year.natAbs

end Date

/-- The text of the instant `centiseconds` hundredths of a second after the start of 1970, such as
`Thu Jan  1 00:00:00 1970`; nothing when its date is out of range. -/
def renderInstant? (centiseconds : Int) : Option String :=
  let seconds := centiseconds.fdiv 100
  let days := seconds.fdiv 86400
  let time := (seconds.fmod 86400).toNat
  if Date.firstDay ≤ days && days ≤ Date.lastDay then
    let date := Date.ofDays days
    let weekday := Date.weekdays.getD (days.fmod 7).toNat ""
    let month := Date.months.getD (date.month - 1) ""
    let day := if date.day < 10 then " " ++ date.day.repr else date.day.repr
    let two := Decimal.renderPadded 2
    let clock := two (time / 3600) ++ ":" ++ two (time / 60 % 60) ++ ":" ++ two (time % 60)
    some (weekday ++ " " ++ month ++ " " ++ day ++ " " ++ clock ++ " "
      ++ Date.renderYear date.year)
  else none

end TextMacro
