/-
Dates of the proleptic Gregorian calendar, and times and spans of time as text.

Years are counted from the first of March inside an era of 400 years, which is
always 146097 days long; the leap day then ends a year and needs no case.
-/
import Keyless.Time

namespace Keyless

/-- A calendar date. -/
structure Date where
  year : Int
  month : Nat
  day : Nat
deriving DecidableEq, Repr

/-- The date of a day counted from 1970-01-01. -/
def Date.ofDays (days : Int) : Date :=
  let shifted := days + 719468
  let era := shifted / 146097
  let dayOfEra := (shifted % 146097).toNat
  let yearOfEra := (dayOfEra - dayOfEra / 1460 + dayOfEra / 36524 - dayOfEra / 146096) / 365
  let dayOfYear := dayOfEra - (365 * yearOfEra + yearOfEra / 4 - yearOfEra / 100)
  let monthFromMarch := (5 * dayOfYear + 2) / 153
  let day := dayOfYear - (153 * monthFromMarch + 2) / 5 + 1
  let month := if monthFromMarch < 10 then monthFromMarch + 3 else monthFromMarch - 9
  let year := (yearOfEra : Int) + 400 * era + if month ≤ 2 then 1 else 0
  { year, month, day }

/-- The number in decimal with at least `width` digits. -/
def paddedDecimal (width value : Nat) : String :=
  let digits := Nat.toDigits 10 value
  String.ofList (List.replicate (width - digits.length) '0' ++ digits)

/-- A year has four digits; outside 0 to 9999 it carries a sign. -/
def Date.yearText (year : Int) : String :=
  if 0 ≤ year ∧ year ≤ 9999 then paddedDecimal 4 year.toNat
  else (if 0 ≤ year then "+" else "-") ++ paddedDecimal 4 year.natAbs

/-- Year, month and day, joined by hyphens. -/
def Date.text (d : Date) : String :=
  yearText d.year ++ "-" ++ paddedDecimal 2 d.month ++ "-" ++ paddedDecimal 2 d.day

namespace Time

/-- The date on which the time falls. -/
def date (t : Time) : Date := Date.ofDays (t.seconds / 86400)

/-- Hours, minutes and seconds, joined by colons. -/
def clockText (t : Time) : String :=
  let second := (t.seconds % 86400).toNat
  paddedDecimal 2 (second / 3600) ++ ":" ++ paddedDecimal 2 (second / 60 % 60) ++ ":" ++
    paddedDecimal 2 (second % 60)

/-- The time as prose shows it, such as `1970-01-01 00:00:09 UTC`. -/
def text (t : Time) : String := t.date.text ++ " " ++ t.clockText ++ " UTC"

/-- The time as a timestamp, such as `1970-01-01T00:00:09Z`. -/
def stamp (t : Time) : String := t.date.text ++ "T" ++ t.clockText ++ "Z"

/-- A timestamp that may be absent. -/
def optionalStamp : Option Time → String
  | none => "None"
  | some t => "Some(" ++ t.stamp ++ ")"

end Time

example : (Date.ofDays 0, Date.ofDays 11016, Date.ofDays (-719529))
    = (⟨1970, 1, 1⟩, ⟨2000, 2, 29⟩, ⟨-1, 12, 31⟩) := by decide

/-! ### Spans of time -/

/-- A span of time, in milliseconds. -/
abbrev Duration := Nat

namespace Duration

/-- A number of whole seconds. -/
def ofSeconds (seconds : Nat) : Duration := 1000 * seconds

/-- The digits after the decimal point, without the zeros that end them. -/
def fraction (milliseconds : Nat) : String :=
  let digits := (paddedDecimal 3 milliseconds).toList
  String.ofList (digits.reverse.dropWhile (· == '0')).reverse

/-- The span in the largest fitting unit: `0ns`, `20ms`, `2s`, `1.5s`. -/
def text (span : Duration) : String :=
  if span = 0 then "0ns"
  else if span < 1000 then toString span ++ "ms"
  else if span % 1000 = 0 then toString (span / 1000) ++ "s"
  else toString (span / 1000) ++ "." ++ fraction (span % 1000) ++ "s"

end Duration

end Keyless
