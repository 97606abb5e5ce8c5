import InletRegistry.Settings.Basic
import InletRegistry.Text.Digits
import InletRegistry.Toml.Moment

/-!
# Scalars of TOML

The values that stand without quotes: truth values, integers in four bases, floating numbers and
moments. Digits may be set apart by single underscores. An integer must fit 64 bits; a floating
number is the one nearest to its decimal and must not be too great.
-/

namespace InletRegistry.Toml.Scalar

open InletRegistry.Text InletRegistry.Json

/-! ## Digits -/

/-- Characters without the underscores, each of which must stand between two digits; `isAfterDigit`
tells whether a digit stands in front of them all. -/
def joinedFrom? (isDigit : Char → Bool) : Bool → List Char → Option (List Char)
  | _, [] => some []
  | isAfterDigit, c :: rest =>
    if c = '_' then
      match rest with
      | d :: _ => if isAfterDigit && isDigit d then joinedFrom? isDigit false rest else none
      | [] => none
    else (joinedFrom? isDigit (isDigit c) rest).map (c :: ·)

/-- Characters without the underscores between digits. -/
def joined? (isDigit : Char → Bool) (cs : List Char) : Option (List Char) :=
  joinedFrom? isDigit false cs

/-- The least number that a signed integer of 64 bits does not reach. -/
def signedEnd : Nat := Nat.pow 2 63

/-! ## Integers by base -/

def digit? (base : Nat) (c : Char) : Option Nat :=
  (Hex.digit? c).bind fun d => if d < base then some d else none

def based? (base : Nat) (cs : List Char) : Option Setting :=
  match joined? (fun c => (digit? base c).isSome) cs with
  | some (d :: digits) =>
    ((d :: digits).mapM (digit? base)).bind fun values =>
      let n := values.foldl (fun n d => n * base + d) 0
      if n < signedEnd then some (.integer n) else none
  | _ => none

/-! ## Decimal numbers -/

def length (n : Nat) : Nat := (Decimal.digits n).length

/-- The magnitude nearest to a numeral; nothing if it is too great. -/
def nearest? (n : Numeral) : Option Nat :=
  let digits := Decimal.value (n.whole ++ n.fraction)
  let exponent : Int := match n.exponent with
    | none => 0
    | some (true, e) => -(Decimal.value e : Int)
    | some (false, e) => Decimal.value e
  let power := exponent - n.fraction.length
  if digits = 0 then some 0
  else if power + length digits > 310 then none
  else if power + length digits < -330 then some 0
  else
    let bits := Binary64.nearest (digits * Nat.pow 10 power.toNat) (Nat.pow 10 (-power).toNat) 0
    if bits < Binary64.infinity then some bits else none

/-- The value of a numeral: an integer if it has neither fraction nor exponent. -/
def ofNumeral? (n : Numeral) : Option Setting :=
  if n.fraction = [] ∧ n.exponent = none then
    let k := Decimal.value n.whole
    if n.isNegative then if k ≤ signedEnd then some (.integer (-k)) else none
    else if k < signedEnd then some (.integer k) else none
  else (nearest? n).map fun bits => .floating n.isNegative bits

/-- The magnitude that stands for what is not a number. -/
def undefined : Nat := Binary64.infinity + Nat.pow 2 51

def decimal? (cs : List Char) : Option Setting :=
  let (isNegative, unsigned) := match cs with
    | '-' :: rest => (true, rest)
    | '+' :: rest => (false, rest)
    | _ => (false, cs)
  if unsigned = ['i', 'n', 'f'] then some (.floating isNegative Binary64.infinity)
  else if unsigned = ['n', 'a', 'n'] then some (.floating isNegative undefined)
  else if (unsigned.head?.map Decimal.isDigit).getD false then
    match (joined? Decimal.isDigit unsigned).bind Numeral.ofChars? with
    | some n => ofNumeral? { n with isNegative }
    | none => none
  else none

/-! ## All of them -/

def read? (cs : List Char) : Option Setting :=
  match cs with
  | ['t', 'r', 'u', 'e'] => some (.truth true)
  | ['f', 'a', 'l', 's', 'e'] => some (.truth false)
  | '0' :: 'x' :: digits => based? 16 digits
  | '0' :: 'o' :: digits => based? 8 digits
  | '0' :: 'b' :: digits => based? 2 digits
  | _ =>
    match decimal? cs with
    | some s => some s
    | none => (Moment.read? cs).map fun m => .text (String.ofList m)

end InletRegistry.Toml.Scalar
