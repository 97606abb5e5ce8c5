import InletRegistry.Document
import InletRegistry.Json.Number

/-!
# Settings

What a configuration is put together from before it is read as one: values from files and from the
environment, where everything is text. So a setting is a lenient kind of document: a number may be
written as a text and a text as a number, and words stand for truth values.
-/

namespace InletRegistry

open InletRegistry.Text InletRegistry.Json

/-- A value before it is read as part of a configuration. -/
inductive Setting where
  | nothing
  | truth (b : Bool)
  | integer (n : Int)
  /-- A floating number: its sign and its magnitude, which may be infinite, or beyond infinity where
  it is not a number. -/
  | floating (isNegative : Bool) (bits : Nat)
  | text (s : String)
  | list (items : List Setting)
  | table (entries : List (String × Setting))
  deriving Inhabited

namespace Setting

/-! ## Texts -/

/-- A finite magnitude as text, positional whatever its size. -/
def positional (bits : Nat) : List Char :=
  if bits = 0 then ['0']
  else
    let d := Binary64.shortest bits
    let digits := Decimal.digits d.digits
    let point : Int := digits.length + d.power
    if 0 ≤ d.power then digits ++ List.replicate d.power.toNat '0'
    else if 0 < point then Number.pointed digits point.toNat
    else '0' :: '.' :: List.replicate point.natAbs '0' ++ digits

def floatingText (isNegative : Bool) (bits : Nat) : String :=
  if bits > Binary64.infinity then "NaN"
  else
    let magnitude := if bits = Binary64.infinity then "inf" else String.ofList (positional bits)
    if isNegative then "-" ++ magnitude else magnitude

def toText? : Setting → Option String
  | .text s => some s
  | .truth b => some (if b then "true" else "false")
  | .integer n => some (String.ofList (Number.signed n))
  | .floating isNegative bits => some (floatingText isNegative bits)
  | _ => none

/-! ## Words for truth values -/

/-- A letter of ASCII in lower case, and any other character as it is; but the Kelvin sign, the one
other character whose lower case is in ASCII, is a `k`. -/
def lower (c : Char) : Char :=
  if 'A' ≤ c ∧ c ≤ 'Z' then Char.ofNat (c.toNat + 32) else if c = '\u212A' then 'k' else c

/-- The truth value that a word stands for, in any letter case. -/
def word? (s : String) : Option Bool :=
  let w := String.ofList (s.toList.map lower)
  if w = "true" ∨ w = "on" ∨ w = "yes" then some true
  else if w = "false" ∨ w = "off" ∨ w = "no" then some false
  else none

/-- A setting as a truth value: a number is true unless it is zero. -/
def toBool? : Setting → Option Bool
  | .truth b => some b
  | .integer n => some (n ≠ 0)
  | .floating _ bits => some (bits ≠ 0)
  | .text "1" => some true
  | .text "0" => some false
  | .text s => word? s
  | _ => none

/-! ## Numbers -/

/-- The whole number nearest to a finite magnitude, the greater one if two are as near. -/
def rounded (bits : Nat) : Nat :=
  let m := Binary64.mantissa bits
  match Binary64.exponent bits with
  | .ofNat e => m * Nat.pow 2 e
  | .negSucc e => (m + Nat.pow 2 e) / Nat.pow 2 (e + 1)

/-- A floating number as a natural of 64 bits: rounded, and kept within the range. What is not a
number is zero. -/
def saturated (isNegative : Bool) (bits : Nat) : Nat :=
  if isNegative ∨ bits > Binary64.infinity then 0
  else if bits = Binary64.infinity then Decimal.word64
  else min (rounded bits) Decimal.word64

def toWord? : Setting → Option Nat
  | .truth b => some b.toNat
  | .integer n => if n < 0 then none else some n.toNat
  | .floating isNegative bits => some (saturated isNegative bits)
  | .text s =>
    match word? s with
    | some b => some b.toNat
    | none => Decimal.natural? Decimal.word64 s.toList
  | _ => none

def toNatural? (limit : Nat) (s : Setting) : Option Nat :=
  match s.toWord? with
  | some n => if n ≤ limit then some n else none
  | none => none

/-! ## Parts -/

def items? : Setting → Option (List Setting)
  | .list items => some items
  | _ => none

/-- One of some named values, written as its name or as a table with an entry of that name alone. -/
def toChoice? {α : Type} (choices : List (String × α)) : Setting → Option α
  | .text s => choices.lookup s
  | .table [(name, _)] => choices.lookup name
  | _ => none

/-- The fields of a record, from a table or from a list in which they stand in their order. -/
def fields? (names : List String) (needed : Nat) : Setting → Option (List (Option Setting))
  | .table entries => some (names.map fun n => entries.lookup n)
  | .list items =>
    if needed ≤ items.length then
      some ((items.take names.length).map some ++
        List.replicate (names.length - items.length) none)
    else none
  | _ => none

/-- Settings are documents in which one kind of value may stand for another. -/
instance : Document Setting where
  isAbsent s := match s with
    | .nothing => true
    | _ => false
  toText? := Setting.toText?
  toBool? := Setting.toBool?
  toNatural? := Setting.toNatural?
  items? := Setting.items?
  toChoice? := Setting.toChoice?
  fields? := Setting.fields?

end Setting

end InletRegistry
