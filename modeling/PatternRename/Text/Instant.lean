import PatternRename.Text.Decimal

/-!
# Points in time

A point in time is a number of seconds since the beginning of 1970. It is written as a date and a
time of day, both for Greenwich.

## Main definitions

- `CivilDate`, `CivilDate.ofDays` — the date of a day
- `instantText` — how a point in time is written
-/

namespace PatternRename.Text

structure CivilDate where
  year : Nat
  month : Nat
  day : Nat
  deriving DecidableEq, Repr

/-- The date of a day, counted from the first of January 1970. The calendar repeats after 400
years of 146097 days; a year is taken to begin in March, so that the leap day comes last. -/
def CivilDate.ofDays (days : Nat) : CivilDate :=
  let shifted := days + 719468
  let era := shifted / 146097
  let dayOfEra := shifted % 146097
  let yearOfEra := (dayOfEra - dayOfEra / 1460 + dayOfEra / 36524 - dayOfEra / 146096) / 365
  let dayOfYear := dayOfEra - (365 * yearOfEra + yearOfEra / 4 - yearOfEra / 100)
  let monthFromMarch := (5 * dayOfYear + 2) / 153
  let month := if monthFromMarch < 10 then monthFromMarch + 3 else monthFromMarch - 9
  { year := yearOfEra + era * 400 + (if month ≤ 2 then 1 else 0)
    month
    day := dayOfYear - (153 * monthFromMarch + 2) / 5 + 1 }

example : CivilDate.ofDays 0 = ⟨1970, 1, 1⟩ := by decide
example : CivilDate.ofDays 11016 = ⟨2000, 2, 29⟩ := by decide
example : CivilDate.ofDays 20088 = ⟨2024, 12, 31⟩ := by decide

def padded (width n : Nat) : String :=
  String.ofList (zeroPad width (digits n))

def instantText (seconds : Nat) : String :=
  let date := CivilDate.ofDays (seconds / 86400)
  let time := seconds % 86400
  s!"{padded 4 date.year}-{padded 2 date.month}-{padded 2 date.day}T" ++
    s!"{padded 2 (time / 3600)}:{padded 2 (time / 60 % 60)}:{padded 2 (time % 60)}Z"

end PatternRename.Text
