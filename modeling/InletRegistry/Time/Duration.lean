import InletRegistry.Text.Digits

/-!
# Durations

A length of time in nanoseconds and its text: the greatest unit of `s`, `ms`, `µs` and `ns` of
which there is at least one, with as many decimals as are needed and no more.
-/

namespace InletRegistry.Time

open InletRegistry.Text

/-- A length of time. -/
structure Duration where
  nanoseconds : Nat
  deriving DecidableEq, Repr

namespace Duration

def ofMilliseconds (n : Nat) : Duration := ⟨n * 1000000⟩

def ofSeconds (n : Nat) : Duration := ⟨n * 1000000000⟩

def milliseconds (d : Duration) : Nat := (d.nanoseconds + 999999) / 1000000

/-- A number over a power of ten, without zeros at the end of its decimals. -/
def decimalText (places n : Nat) : String :=
  let unit := Nat.pow 10 places
  let decimals := (Decimal.padded places (n % unit)).toList
  let kept := (decimals.reverse.dropWhile (· = '0')).reverse
  if n % unit = 0 then Decimal.text (n / unit)
  else Decimal.text (n / unit) ++ "." ++ String.ofList kept

def text (d : Duration) : String :=
  let n := d.nanoseconds
  if n ≥ 1000000000 then decimalText 9 n ++ "s"
  else if n ≥ 1000000 then decimalText 6 n ++ "ms"
  else if n ≥ 1000 then decimalText 3 n ++ "µs"
  else Decimal.text n ++ "ns"

end Duration

end InletRegistry.Time
