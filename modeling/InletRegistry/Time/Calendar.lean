import InletRegistry.Text.Digits

/-!
# Instants and their calendar text

An instant is a count of milliseconds since the start of 1970 in UTC, within the years that the
calendar can write. Its text is the RFC 3339 form with the offset `+00:00`: three decimals of the
second unless they are zero, and a signed year where four digits do not do.
-/

namespace InletRegistry.Time

open InletRegistry.Text

/-- An instant in milliseconds since the start of 1970. -/
structure Instant where
  /-- Milliseconds since the start of 1970, negative before it. -/
  milliseconds : Int
  deriving DecidableEq, Repr

namespace Instant

/-- The first instant of the calendar. -/
def first : Int := -8334601228800000

def last : Int := 8210266876799999

/-- The instant of a count of milliseconds that the calendar reaches. -/
def ofMilliseconds? (n : Int) : Option Instant :=
  if first ≤ n ∧ n ≤ last then some ⟨n⟩ else none

/-- The instant that a count of nanoseconds since the start of 1970 falls in. -/
def ofNanoseconds (n : Int) : Instant := ⟨n.fdiv 1000000⟩

/-- Year, month and day of a count of days since the start of 1970, in the Gregorian calendar
carried back before its adoption. -/
def civil (days : Int) : Int × Nat × Nat :=
  let shifted := days + 719468
  let era := shifted.fdiv 146097
  let dayOfEra := (shifted - era * 146097).toNat
  let yearOfEra :=
    (dayOfEra - dayOfEra / 1460 + dayOfEra / 36524 - dayOfEra / 146096) / 365
  let dayOfYear := dayOfEra - (365 * yearOfEra + yearOfEra / 4 - yearOfEra / 100)
  let shiftedMonth := (5 * dayOfYear + 2) / 153
  let day := dayOfYear - (153 * shiftedMonth + 2) / 5 + 1
  let month := if shiftedMonth < 10 then shiftedMonth + 3 else shiftedMonth - 9
  let year := era * 400 + yearOfEra
  (if month ≤ 2 then year + 1 else year, month, day)

/-- A year: four digits from 0 to 9999, else a sign and at least four digits. -/
def yearText (y : Int) : String :=
  if y < 0 then "-" ++ Decimal.padded 4 y.natAbs
  else if y ≤ 9999 then Decimal.padded 4 y.natAbs
  else "+" ++ Decimal.padded 4 y.natAbs

def text (t : Instant) : String :=
  let days := t.milliseconds.fdiv 86400000
  let rest := (t.milliseconds - days * 86400000).toNat
  let (year, month, day) := civil days
  let fraction := rest % 1000
  yearText year ++ "-" ++ Decimal.padded 2 month ++ "-" ++ Decimal.padded 2 day ++ "T" ++
    Decimal.padded 2 (rest / 3600000) ++ ":" ++ Decimal.padded 2 (rest / 60000 % 60) ++ ":" ++
    Decimal.padded 2 (rest / 1000 % 60) ++
    (if fraction = 0 then "" else "." ++ Decimal.padded 3 fraction) ++ "+00:00"

end Instant

end InletRegistry.Time
