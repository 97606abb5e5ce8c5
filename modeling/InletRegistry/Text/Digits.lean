/-!
# Digits

Natural numbers written in ASCII digits, and octets written as pairs of hexadecimal digits. A decimal
numeral may carry leading zeros; a written number never does. `Decimal.natural?` reads the form that a
version takes in a request: an optional plus sign before the digits, and nothing above a stated limit.
Hexadecimal digits are read in either letter case; writing has one function for each.
-/

namespace InletRegistry.Text.Decimal

/-- The greatest number of 64 bits. -/
def word64 : Nat := 18446744073709551615

/-- The greatest number of 32 bits. -/
def word32 : Nat := 4294967295

/-- Whether a character is one of the ten ASCII digits. -/
def isDigit (c : Char) : Bool := '0' ≤ c && c ≤ '9'

def digitValue (c : Char) : Nat := c.toNat - '0'.toNat

/-- The number that digits spell, most significant first. -/
def value (cs : List Char) : Nat := cs.foldl (fun n c => n * 10 + digitValue c) 0

/-- A number's digits, without leading zeros. -/
def digits (n : Nat) : List Char := Nat.toDigits 10 n

def text (n : Nat) : String := String.ofList (digits n)

def padded (width n : Nat) : String :=
  String.ofList (List.replicate (width - (digits n).length) '0' ++ digits n)

/-- Reads one digit or more, and nothing else. -/
def plain? (cs : List Char) : Option Nat :=
  if cs ≠ [] ∧ cs.all isDigit then some (value cs) else none

/-- Reads digits after an optional plus sign, up to a limit. -/
def natural? (limit : Nat) (cs : List Char) : Option Nat :=
  let digits := match cs with
    | '+' :: rest => rest
    | _ => cs
  match plain? digits with
  | some n => if n ≤ limit then some n else none
  | none => none

/-- What is read is never above the limit. -/
theorem natural?_le {limit n : Nat} {cs : List Char} (h : natural? limit cs = some n) :
    n ≤ limit := by
  unfold natural? at h
  dsimp only at h
  split at h
  · split at h
    · next hle => exact Option.some.inj h ▸ hle
    · contradiction
  · contradiction

end InletRegistry.Text.Decimal

namespace InletRegistry.Text.Hex

/-- What a hexadecimal digit of either letter case counts. -/
def digit? (c : Char) : Option Nat :=
  if '0' ≤ c ∧ c ≤ '9' then some (c.toNat - '0'.toNat)
  else if 'a' ≤ c ∧ c ≤ 'f' then some (c.toNat - 'a'.toNat + 10)
  else if 'A' ≤ c ∧ c ≤ 'F' then some (c.toNat - 'A'.toNat + 10)
  else none

/-- The digit for a number below sixteen, in lower case. -/
def lower (n : Nat) : Char := Char.ofNat (if n < 10 then 48 + n else 87 + n)

/-- The digit for a number below sixteen, in upper case. -/
def upper (n : Nat) : Char := Char.ofNat (if n < 10 then 48 + n else 55 + n)

def octet (b : UInt8) : List Char := [lower (b.toNat / 16), lower (b.toNat % 16)]

def octets? : List Char → Option (List UInt8)
  | [] => some []
  | [_] => none
  | high :: low :: rest =>
    match digit? high, digit? low, octets? rest with
    | some h, some l, some bs => some (UInt8.ofNat (h * 16 + l) :: bs)
    | _, _, _ => none

end InletRegistry.Text.Hex
