/-!
# Punycode

A label of a host name in ASCII: its ASCII characters, a hyphen behind them if there are any, and
then where the others go. Those are placed in the order of their code points, and of one code point
from left to right. Think of all pairs of a code point and a place for it, in that order: every
character is written as the number of pairs passed over since the one before.

A number is written with its lowest digit first, in a base whose digits have thresholds: a digit
below the threshold of its place is the last. The thresholds follow a bias, which follows the
numbers written.
-/

namespace InletRegistry.Text.Punycode

/-- The digit for a number below 36: the letters, then the decimal digits. -/
def digit (n : Nat) : Char := Char.ofNat (if n < 26 then 97 + n else 22 + n)

def threshold (bias place : Nat) : Nat := max 1 (min 26 (place - bias))

/-- No digit of nought goes on. -/
theorem threshold_pos (bias place : Nat) : 0 < threshold bias place := by
  unfold threshold
  omega

/-- A number in digits, lowest first; places are counted in steps of 36. -/
def digits (bias place n : Nat) : List Char :=
  let t := threshold bias place
  if n < t then [digit n]
  else digit (t + (n - t) % (36 - t)) :: digits bias (place + 36) ((n - t) / (36 - t))
termination_by n
decreasing_by
  have hpos := threshold_pos bias place
  have hdiv := Nat.div_le_self (n - threshold bias place) (36 - threshold bias place)
  omega

/-- The bias for numbers about as great as one: a step of 36 for every division by 35 that brings
it to 455 or below. -/
def biasFor (steps n : Nat) : Nat :=
  if 455 < n then biasFor (steps + 36) (n / 35) else steps + 36 * n / (n + 38)
termination_by n
decreasing_by exact Nat.div_lt_self (by omega) (by omega)

/-- How far a label is written. -/
structure Progress where
  written : List Char
  bias : Nat
  placed : Nat
  /-- The pairs passed over since the last number. -/
  passed : Nat
  /-- The least code point of which nothing has been placed. -/
  least : Nat

/-- Writes the number of pairs passed over; the first number of a label weighs less. -/
def Progress.write (isFirst : Bool) (p : Progress) : Progress :=
  let scaled := if isFirst then p.passed / 700 else p.passed / 2
  { p with
    written := p.written ++ digits p.bias 36 p.passed
    bias := biasFor 0 (scaled + scaled / (p.placed + 1))
    placed := p.placed + 1
    passed := 0 }

/-- Places all characters of one code point in a label that has so many ASCII characters. -/
def Progress.place (ascii : Nat) (label : List Char) (p : Progress) (code : Nat) : Progress :=
  let start := { p with passed := p.passed + (code - p.least) * (p.placed + 1) }
  let done := label.foldl (fun p c =>
    if c.toNat < code then { p with passed := p.passed + 1 }
    else if c.toNat = code then p.write (p.placed = ascii)
    else p) start
  { done with passed := done.passed + 1, least := code + 1 }

def encode (label : List Char) : List Char :=
  let ascii := label.filter fun c => c.toNat < 128
  let codes := ((label.filter fun c => 128 ≤ c.toNat).map Char.toNat).eraseDups.mergeSort
  let done := codes.foldl (Progress.place ascii.length label) ⟨[], 72, ascii.length, 0, 128⟩
  ascii ++ (if ascii = [] then [] else ['-']) ++ done.written

end InletRegistry.Text.Punycode
