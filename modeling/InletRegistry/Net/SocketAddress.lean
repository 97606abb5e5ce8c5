import InletRegistry.Text.Digits
import InletRegistry.Text.Pieces

/-!
# Socket addresses

An IP address with the number of a service there. The fourth version is four octets with points
between them, none with a needless zero in front; the sixth is eight groups of hexadecimal digits
in brackets, of which one run of zeros may be left out, the last two groups may be written as four
octets, and a scope may follow.
-/

namespace InletRegistry.Net

open InletRegistry.Text

/-- An IP address with the number of a service there. -/
inductive SocketAddress where
  | v4 (octets : List Nat) (number : Nat)
  /-- An address of version 6 with its scope. -/
  | v6 (groups : List Nat) (scope number : Nat)
  deriving DecidableEq, Repr

namespace SocketAddress

def number? (cs : List Char) : Option Nat :=
  (Decimal.plain? cs).bind fun n => if n ≤ 65535 then some n else none

/-- An octet: up to three digits up to 255, without a needless zero in front. -/
def octet? (cs : List Char) : Option Nat :=
  (Decimal.plain? cs).bind fun n =>
    if cs.length ≤ 3 ∧ n ≤ 255 ∧ (cs.head? ≠ some '0' ∨ cs.length = 1) then some n else none

def octets? (cs : List Char) : Option (List Nat) :=
  let parts := pieces '.' cs
  if parts.length = 4 then parts.mapM octet? else none

def group? (cs : List Char) : Option Nat :=
  if cs ≠ [] ∧ cs.length ≤ 4 then
    (cs.mapM Hex.digit?).map fun ds => ds.foldl (fun n d => n * 16 + d) 0
  else none

/-- Groups with colons between them, of which the last two may be four octets. -/
def groups? (cs : List Char) : Option (List Nat) :=
  if cs = [] then some []
  else
    let parts := pieces ':' cs
    match octets? (parts.getLast?.getD []) with
    | some [a, b, c, d] =>
      (parts.dropLast.mapM group?).map fun gs => gs ++ [a * 256 + b, c * 256 + d]
    | _ => parts.mapM group?

/-- Splits a text at its first double colon. -/
def splitDouble? : List Char → Option (List Char × List Char)
  | ':' :: ':' :: rest => some ([], rest)
  | c :: rest => (splitDouble? rest).map fun (before, after) => (c :: before, after)
  | [] => none

def address6? (cs : List Char) : Option (List Nat) :=
  match splitDouble? cs with
  | none => (groups? cs).bind fun gs => if gs.length = 8 then some gs else none
  | some (before, after) =>
    match groups? before, groups? after with
    | some head, some tail =>
      if head.length + tail.length ≤ 7 ∧ '.' ∉ before then
        some (head ++ List.replicate (8 - head.length - tail.length) 0 ++ tail)
      else none
    | _, _ => none

/-- An address of version 6 with a scope after a percent sign. -/
def scoped? (cs : List Char) : Option (List Nat × Nat) :=
  match cs.dropWhile (· ≠ '%') with
  | [] => (address6? cs).map fun gs => (gs, 0)
  | _ :: scope =>
    match address6? (cs.takeWhile (· ≠ '%')), Decimal.plain? scope with
    | some gs, some n => if n ≤ Decimal.word32 then some (gs, n) else none
    | _, _ => none

def parse? (s : String) : Option SocketAddress :=
  match s.toList with
  | '[' :: cs =>
    match cs.dropWhile (· ≠ ']') with
    | ']' :: ':' :: number =>
      match scoped? (cs.takeWhile (· ≠ ']')), number? number with
      | some (gs, scope), some n => some (.v6 gs scope n)
      | _, _ => none
    | _ => none
  | cs =>
    match cs.dropWhile (· ≠ ':') with
    | ':' :: number =>
      match octets? (cs.takeWhile (· ≠ ':')), number? number with
      | some os, some n => some (.v4 os n)
      | _, _ => none
    | _ => none

/-! ## Writing -/

def octetsText (os : List Nat) : String := String.intercalate "." (os.map Decimal.text)

/-- A number in hexadecimal digits without zeros in front. -/
def hexText (n : Nat) : String := String.ofList (Nat.toDigits 16 n)

def groupsText (gs : List Nat) : String := String.intercalate ":" (gs.map hexText)

def zeros (gs : List Nat) : Nat := (gs.takeWhile (· = 0)).length

/-- The first of the longest runs of zeros: where it starts and how long it is. -/
def longestRun (gs : List Nat) : Nat × Nat :=
  (List.range gs.length).foldl
    (fun best i => if zeros (gs.drop i) > best.2 then (i, zeros (gs.drop i)) else best) (0, 0)

/-- Eight groups: a run of two zeros or more is left out, and an address of version 4 inside one of
version 6 is written as such. -/
def address6Text (gs : List Nat) : String :=
  match gs with
  | [0, 0, 0, 0, 0, 0xFFFF, high, low] =>
    "::ffff:" ++ octetsText [high / 256, high % 256, low / 256, low % 256]
  | _ =>
    let (start, length) := longestRun gs
    if length > 1 then groupsText (gs.take start) ++ "::" ++ groupsText (gs.drop (start + length))
    else groupsText gs

def text : SocketAddress → String
  | v4 octets number => octetsText octets ++ ":" ++ Decimal.text number
  | v6 groups scope number =>
    "[" ++ address6Text groups ++ (if scope = 0 then "" else "%" ++ Decimal.text scope) ++ "]:" ++
      Decimal.text number

end SocketAddress

end InletRegistry.Net
