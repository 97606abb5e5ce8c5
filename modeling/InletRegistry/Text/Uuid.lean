import InletRegistry.Text.Digits

/-!
# Generated identifiers

Version 4 uuids in lower case with hyphens, made from numbers. Whoever needs an identifier draws 122
bits at random; here a count stands for that source, which starts at a number that the caller of the
registry draws and never gives a number twice. That two identifiers of a registry differ is therefore an
assumption about the source, and not a fact about uuids: only numbers that differ in their lowest 122
bits give different ones. `isUuid` is the form on its own.
-/

namespace InletRegistry.Text.Uuid

def hexDigits : Nat → Nat → List Char
  | 0, _ => []
  | width + 1, n => hexDigits width (n / 16) ++ [Hex.lower (n % 16)]

/-- The uuid of a number of 122 bits: version 4 and variant 1 stand in their places, and the number
fills the rest, its lowest bits last. -/
def ofNat (n : Nat) : String :=
  let node := n % Nat.pow 2 48
  let clock := n / Nat.pow 2 48 % Nat.pow 2 14
  let high := n / Nat.pow 2 62 % Nat.pow 2 12
  let middle := n / Nat.pow 2 74 % Nat.pow 2 16
  let low := n / Nat.pow 2 90 % Nat.pow 2 32
  String.ofList (hexDigits 8 low ++ '-' :: hexDigits 4 middle ++ '-' :: '4' :: hexDigits 3 high ++
    '-' :: hexDigits 4 (Nat.pow 2 15 + clock) ++ '-' :: hexDigits 12 node)

/-- Whether a character is a hexadecimal digit in lower case. -/
def isLowerHex (c : Char) : Bool := ('0' ≤ c && c ≤ '9') || ('a' ≤ c && c ≤ 'f')

/-- Whether characters are a version 4 uuid in lower case with hyphens. -/
def isUuid (cs : List Char) : Bool :=
  cs.length == 36 &&
    cs.zipIdx.all fun (c, i) =>
      if i = 8 ∨ i = 13 ∨ i = 18 ∨ i = 23 then c == '-'
      else if i = 14 then c == '4'
      else if i = 19 then ['8', '9', 'a', 'b'].contains c
      else isLowerHex c

end InletRegistry.Text.Uuid
