import InletRegistry.Text.Digits

/-!
# Floating numbers as bits

A binary floating number of 64 bits, held as its bits, with the three operations that reading a
decimal needs (the nearest number to a ratio, product and quotient) and the shortest decimal that
reads back. All of it is exact arithmetic on naturals; rounding goes to the nearest, ties to even.

Only magnitudes occur here; the sign is the caller's. A magnitude is a natural below `infinity`,
and the number it stands for is `mantissa * 2 ^ exponent`.
-/

namespace InletRegistry.Json.Binary64

/-- The leading bit of a mantissa, which is not among the bits of a magnitude. -/
def leadingBit : Nat := Nat.pow 2 52

/-- The magnitude that is infinite, which no written number has. -/
def infinity : Nat := 0x7FF * leadingBit

def signBit : Nat := Nat.pow 2 63

/-- The whole number beside a magnitude's power of two. -/
def mantissa (bits : Nat) : Nat :=
  if bits / leadingBit = 0 then bits else bits % leadingBit + leadingBit

def exponent (bits : Nat) : Int :=
  if bits / leadingBit = 0 then -1074 else (bits / leadingBit : Nat) - 1075

/-- The whole number nearest to a ratio, an even one if two are as near. -/
def roundRatio (numerator denominator : Nat) : Nat :=
  let q := numerator / denominator
  let r := numerator % denominator
  if 2 * r < denominator then q
  else if 2 * r > denominator then q + 1
  else if q % 2 = 0 then q else q + 1

/-- The magnitude nearest to `numerator / denominator * 2 ^ scale`; `infinity` and more are beyond
the range. -/
def nearest (numerator denominator : Nat) (scale : Int) : Nat :=
  if numerator = 0 then 0
  else
    let scaled (e : Int) : Nat × Nat :=
      (numerator * Nat.pow 2 (scale - e).toNat, denominator * Nat.pow 2 (e - scale).toNat)
    let guess : Int := (numerator.log2 : Int) - denominator.log2 - 52 + scale
    let whole (e : Int) : Nat := (scaled e).1 / (scaled e).2
    let fitted :=
      if whole guess ≥ 2 * leadingBit then guess + 1
      else if whole guess < leadingBit then guess - 1
      else guess
    let e := max fitted (-1074)
    let m := roundRatio (scaled e).1 (scaled e).2
    if m < leadingBit then m else (e + 1075).toNat * leadingBit + (m - leadingBit)

def ofNat (n : Nat) : Nat := nearest n 1 0

def multiply (x y : Nat) : Nat :=
  nearest (mantissa x * mantissa y) 1 (exponent x + exponent y)

def divide (x y : Nat) : Nat :=
  nearest (mantissa x) (mantissa y) (exponent x - exponent y)

/-! ## The shortest decimal -/

/-- A decimal `digits * 10 ^ power`. -/
structure Decimal where
  /-- The digits, as a number. -/
  digits : Nat
  power : Int

/-- Both sides of comparing `c * 10 ^ power` with `n * 2 ^ (exponent bits - 2)`: what `c` and what
`n` are to be multiplied by. -/
def factors (bits : Nat) (power : Int) : Nat × Nat :=
  let e := exponent bits - 2
  (Nat.pow 10 power.toNat * Nat.pow 2 (-e).toNat, Nat.pow 2 e.toNat * Nat.pow 10 (-power).toNat)

/-- Four times the mantissa, and the ends of the interval that reads back, on the same scale. -/
def bounds (bits : Nat) : Nat × Nat × Nat :=
  let m := mantissa bits
  (4 * m, if m = leadingBit ∧ exponent bits > -1074 then 4 * m - 1 else 4 * m - 2, 4 * m + 2)

/-- Whether a decimal reads back as the magnitude: the ends of the interval do if the mantissa is
even. -/
def readsBack (bits : Nat) (d : Decimal) : Bool :=
  let (tens, twos) := factors bits d.power
  let (_, low, high) := bounds bits
  let c := d.digits * tens
  if mantissa bits % 2 = 0 then low * twos ≤ c && c ≤ high * twos
  else low * twos < c && c < high * twos

def decimalPoint (bits : Nat) : Int :=
  let guess : Int := (((mantissa bits).log2 + exponent bits) * 30103).fdiv 100000
  let below (n : Int) : Bool :=
    let (tens, twos) := factors bits n
    (bounds bits).1 * twos < tens
  if below guess then guess
  else if below (guess + 1) then guess + 1
  else guess + 2

/-- The nearer of the two decimals of a power of ten around the magnitude, if one of them reads
back; of two as near, the even one. -/
def onGrid? (bits : Nat) (power : Int) : Option Decimal :=
  let (tens, twos) := factors bits power
  let exact := (bounds bits).1 * twos
  let floor : Decimal := ⟨exact / tens, power⟩
  let ceiling : Decimal := ⟨exact / tens + 1, power⟩
  let toFloor := exact - floor.digits * tens
  let toCeiling := ceiling.digits * tens - exact
  let floorFirst := toFloor < toCeiling ∨ (toFloor = toCeiling ∧ floor.digits % 2 = 0)
  match readsBack bits floor, readsBack bits ceiling with
  | true, true => some (if floorFirst then floor else ceiling)
  | true, false => some floor
  | false, true => some ceiling
  | false, false => none

/-- The decimal with the fewest digits, from some number of digits on; `count` bounds the search. -/
def shortestFrom (bits : Nat) (point : Int) : Nat → Int → Decimal
  | 0, digits => ⟨0, point - digits⟩
  | count + 1, digits =>
    match onGrid? bits (point - digits) with
    | some d => d
    | none => shortestFrom bits point count (digits + 1)

/-- The decimal with the fewest digits that reads back as a magnitude above zero, and of those the
nearest one. The search begins with no digit at all before `decimalPoint`, which finds the power of
ten just above. -/
def shortest (bits : Nat) : Decimal := shortestFrom bits (decimalPoint bits) 18 0

end InletRegistry.Json.Binary64
