/-!
Instants as text: year, month and day, the time of day to the second, and the offset of universal
time. Days are counted through years that begin in March, so that a leap day is the last of its
year, in spans of 400 years, which have 146097 days.
-/

namespace HeaviestChain.Text

/-- A day of the calendar. -/
structure Date where
  year : Nat
  month : Nat
  day : Nat
  deriving DecidableEq

namespace Date

/-- Days from the first of March of the year 0 to the first of January 1970. -/
def epoch : Nat := 719468

/-- The date that many days after the first of January 1970. -/
def ofDays (days : Nat) : Date :=
  let count := days + epoch
  let span := count / 146097
  let dayOfSpan := count % 146097
  let yearOfSpan :=
    (dayOfSpan - dayOfSpan / 1460 + dayOfSpan / 36524 - dayOfSpan / 146096) / 365
  let dayOfYear := dayOfSpan - (365 * yearOfSpan + yearOfSpan / 4 - yearOfSpan / 100)
  let fromMarch := (5 * dayOfYear + 2) / 153
  let day := dayOfYear - (153 * fromMarch + 2) / 5 + 1
  let year := 400 * span + yearOfSpan
  if fromMarch < 10 then ⟨year, fromMarch + 3, day⟩ else ⟨year + 1, fromMarch - 9, day⟩

end Date

/-- The decimal digits of a number, padded with zeros. -/
def padded (width n : Nat) : String :=
  let digits := Nat.toDigits 10 n
  String.ofList (List.replicate (width - digits.length) '0' ++ digits)

/-- The text of an instant in seconds since 1970. -/
def timestamp (seconds : Nat) : String :=
  let date := Date.ofDays (seconds / 86400)
  padded 4 date.year ++ "-" ++ padded 2 date.month ++ "-" ++ padded 2 date.day ++ "T" ++
    padded 2 (seconds / 3600 % 24) ++ ":" ++ padded 2 (seconds / 60 % 60) ++ ":" ++
    padded 2 (seconds % 60) ++ "+00:00"

end HeaviestChain.Text
