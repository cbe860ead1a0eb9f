import MethodGroups.Toml.Lexeme

/-!
# TOML dates and times

A date, a time of day, or both, and then perhaps an offset.  The day must exist
in its month.
-/

namespace MethodGroups.Toml.Reader

/-- Take a number of so many digits that lies in a range. -/
def numberBetween (count low high : Nat) : Reader Nat := do
  let value := digitsValue 10 (← digits isDigit count)
  require (low ≤ value && value ≤ high)
  return value

/-- Whether a year has a 29th of February. -/
def isLeapYear (year : Nat) : Bool := year % 4 = 0 && (year % 100 ≠ 0 || year % 400 = 0)

/-- The number of days of a month. -/
def daysOfMonth (year month : Nat) : Nat :=
  if month = 2 then (if isLeapYear year then 29 else 28)
  else if month ∈ [4, 6, 9, 11] then 30
  else 31

/-- Take a date. -/
def date : Reader Unit := do
  let year ← numberBetween 4 0 9999
  char '-'
  let month ← numberBetween 2 1 12
  char '-'
  let _ ← numberBetween 2 1 (daysOfMonth year month)

/-- Take a time of day, with seconds and perhaps a fraction of them. -/
def time : Reader Unit := do
  let _ ← numberBetween 2 0 23
  char ':'
  let _ ← numberBetween 2 0 59
  char ':'
  let _ ← numberBetween 2 0 60
  let _ ← maybe (char '.' *> takeWhile₁ isDigit)

/-- Take the offset of a time. -/
def offset : Reader Unit :=
  (do let _ ← satisfy fun c => c = 'Z' || c = 'z') <|>
  (do
    let _ ← satisfy fun c => c = '+' || c = '-'
    let _ ← numberBetween 2 0 23
    char ':'
    let _ ← numberBetween 2 0 59)

/-- Take the time that follows a date. -/
def timeOfDate : Reader Unit := do
  let _ ← satisfy fun c => c = 'T' || c = 't' || c = ' '
  time
  let _ ← maybe offset

/-- Take a date, a time or both, as spelled. -/
def dateTime : Reader String :=
  spelling ((do date; let _ ← maybe timeOfDate) <|> time)

end MethodGroups.Toml.Reader
