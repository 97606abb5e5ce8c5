import InletRegistry.Json.Binary64

/-!
# Numbers in JSON

A number is a natural of 64 bits, a negative integer of 64 bits, or a floating number. A numeral
without fraction and exponent is an integer where it fits; every other numeral is a floating number,
and so are `-0` and integers out of range. A numeral whose value is beyond the floating range has
none.

The floating value of a numeral is that of its leading digits as far as they fit 64 bits, scaled by
a power of ten in one rounded step for powers up to 308.
-/

namespace InletRegistry.Json

open InletRegistry.Text

/-- A number of a JSON document. -/
inductive Number where
  /-- An integer from zero up to the greatest of 64 bits. -/
  | natural (n : Nat)
  /-- The integer `-n`, where `n` is from 1 to `2 ^ 63`. -/
  | negative (n : Nat)
  /-- A floating number: whether it is negative, and its magnitude. -/
  | floating (isNegative : Bool) (bits : Nat)
  deriving DecidableEq, Repr

/-- A number as it is spelled. -/
structure Numeral where
  isNegative : Bool
  /-- The digits before the point. -/
  whole : List Char
  /-- The digits after the point; none if there is no point. -/
  fraction : List Char
  /-- The exponent's sign (true if negative) and digits. -/
  exponent : Option (Bool × List Char)
  deriving DecidableEq, Repr

namespace Numeral

/-! ## Spelling -/

/-- The exponent of a numeral and nothing after it; the empty text has none. -/
def exponent? : List Char → Option (Option (Bool × List Char))
  | [] => some none
  | c :: rest =>
    if c = 'e' ∨ c = 'E' then
      let (isNegative, digits) := match rest with
        | '-' :: digits => (true, digits)
        | '+' :: digits => (false, digits)
        | digits => (false, digits)
      if digits ≠ [] ∧ digits.all Decimal.isDigit then some (some (isNegative, digits)) else none
    else none

def splitDigits (cs : List Char) : List Char × List Char :=
  (cs.takeWhile Decimal.isDigit, cs.dropWhile Decimal.isDigit)

/-- The digits before the point: one digit at least, and no zero before another digit. -/
def isWhole : List Char → Bool
  | [] => false
  | ['0'] => true
  | '0' :: _ => false
  | _ => true

def ofChars? (cs : List Char) : Option Numeral :=
  let (isNegative, unsigned) := match cs with
    | '-' :: rest => (true, rest)
    | _ => (false, cs)
  let (whole, rest) := splitDigits unsigned
  if isWhole whole then
    match rest with
    | '.' :: rest =>
      let (fraction, rest) := splitDigits rest
      if fraction = [] then none
      else (exponent? rest).map fun e => ⟨isNegative, whole, fraction, e⟩
    | _ => (exponent? rest).map fun e => ⟨isNegative, whole, [], e⟩
  else none

/-! ## Value -/

/-- Takes digits onto a number for as long as it fits 64 bits, and gives the digits left over. -/
def fit : Nat → List Char → Nat × List Char
  | n, [] => (n, [])
  | n, c :: rest =>
    let next := n * 10 + Decimal.digitValue c
    if next ≤ Decimal.word64 then fit next rest else (n, c :: rest)

/-- The greatest power of ten in the table of exact scales. -/
def greatestScale : Nat := 308

def scale (n : Nat) : Nat := Binary64.ofNat (Nat.pow 10 n)

/-- A magnitude divided by a power of ten, in steps of the greatest scale. -/
def shrink : Nat → Nat → Nat → Nat
  | 0, _, _ => 0
  | steps + 1, x, power =>
    if power ≤ greatestScale then Binary64.divide x (scale power)
    else if x = 0 then 0
    else shrink steps (Binary64.divide x (scale greatestScale)) (power - greatestScale)

/-- The magnitude of a number of 64 bits times a power of ten; nothing if that is out of range. -/
def scaled? (n : Nat) (power : Int) : Option Nat :=
  let x := Binary64.ofNat n
  if power < 0 then some (shrink 4 x power.natAbs)
  else if power.toNat ≤ greatestScale then
    let product := Binary64.multiply x (scale power.toNat)
    if product < Binary64.infinity then some product else none
  else if x = 0 then some 0
  else none

/-- The greatest exponent that is still counted. -/
def greatestExponent : Nat := 2147483647

/-- The magnitude of a numeral that has a fraction, an exponent or too many digits. -/
def magnitude? (n : Numeral) : Option Nat :=
  let (leading, dropped) := fit 0 n.whole
  let (significand, rest) := fit leading n.fraction
  let power : Int := (dropped.length : Int) - ((n.fraction.length - rest.length : Nat) : Int)
  match n.exponent with
  | none => scaled? significand power
  | some (isNegative, digits) =>
    let e := Decimal.value digits
    if e ≤ greatestExponent then scaled? significand (if isNegative then power - e else power + e)
    else if significand ≠ 0 ∧ !isNegative then none
    else some 0

/-- A numeral without fraction and exponent whose digits fit. -/
def integer? (n : Numeral) : Option Nat :=
  let (leading, dropped) := fit 0 n.whole
  if dropped = [] ∧ n.fraction = [] ∧ n.exponent = none then some leading else none

/-- The number that a numeral stands for, unless it is out of range. -/
def number? (n : Numeral) : Option Number :=
  match n.integer? with
  | some k =>
    if !n.isNegative then some (.natural k)
    else if 1 ≤ k ∧ k ≤ Nat.pow 2 63 then some (.negative k)
    else some (.floating true (Binary64.ofNat k))
  | none => n.magnitude?.map fun bits => .floating n.isNegative bits

end Numeral

/-! ## Writing -/

namespace Number

def pointed (digits : List Char) (before : Nat) : List Char :=
  digits.take before ++ '.' :: digits.drop before

def signed (n : Int) : List Char :=
  if n < 0 then '-' :: Decimal.digits n.natAbs else Decimal.digits n.natAbs

/-- A magnitude as text: positional with at least one decimal where the point falls within sixteen
places after or five before the first digit, else with an exponent. -/
def magnitudeText (bits : Nat) : List Char :=
  if bits = 0 then "0.0".toList
  else
    let d := Binary64.shortest bits
    let digits := Decimal.digits d.digits
    let point : Int := digits.length + d.power
    if 0 ≤ d.power ∧ point ≤ 16 then digits ++ List.replicate d.power.toNat '0' ++ ".0".toList
    else if 0 < point ∧ point ≤ 16 then pointed digits point.toNat
    else if -5 < point ∧ point ≤ 0 then
      "0.".toList ++ List.replicate point.natAbs '0' ++ digits
    else if digits.length = 1 then digits ++ 'e' :: signed (point - 1)
    else pointed digits 1 ++ 'e' :: signed (point - 1)

def print : Number → List Char
  | .natural n => Decimal.digits n
  | .negative n => '-' :: Decimal.digits n
  | .floating isNegative bits =>
    if isNegative then '-' :: magnitudeText bits else magnitudeText bits

end Number

end InletRegistry.Json
