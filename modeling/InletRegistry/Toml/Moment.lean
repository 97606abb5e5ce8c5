import InletRegistry.Text.Digits

/-!
# Dates and times of TOML

A moment is a date, a time of day, or both with or without an offset from UTC. It is kept as a text:
an upper-case `T` stands before the time, at most nine decimals of the second are kept and none of
them that are zeros at the end, and an offset is `Z` or a sign, hours and minutes.
-/

namespace InletRegistry.Toml.Moment

open InletRegistry.Text

/-- The number that two digits spell, up to a limit. -/
def pair? (limit : Nat) (a b : Char) : Option Nat :=
  (Decimal.plain? [a, b]).bind fun n => if n ≤ limit then some n else none

/-- The days of a month; the months beyond the twelfth have none. -/
def daysOf (year month : Nat) : Nat :=
  let isLeap := year % 4 = 0 ∧ (year % 100 ≠ 0 ∨ year % 400 = 0)
  if month = 2 then if isLeap then 29 else 28
  else if month = 4 ∨ month = 6 ∨ month = 9 ∨ month = 11 then 30
  else if 1 ≤ month ∧ month ≤ 12 then 31
  else 0

/-- A date, and what follows it. -/
def date? : List Char → Option (List Char × List Char)
  | y :: e :: a :: r :: '-' :: m :: n :: '-' :: d :: f :: rest =>
    match Decimal.plain? [y, e, a, r], Decimal.plain? [m, n], Decimal.plain? [d, f] with
    | some year, some month, some day =>
      if 1 ≤ day ∧ day ≤ daysOf year month then
        some ([y, e, a, r, '-', m, n, '-', d, f], rest)
      else none
    | _, _, _ => none
  | _ => none

def keptDecimals (digits : List Char) : List Char :=
  (((digits.take 9).reverse).dropWhile (· = '0')).reverse

/-- The decimals of a second, if there are any, and what follows them. -/
def decimals? : List Char → Option (List Char × List Char)
  | '.' :: rest =>
    let digits := rest.takeWhile Decimal.isDigit
    if digits = [] then none
    else
      let kept := keptDecimals digits
      some (if kept = [] then [] else '.' :: kept, rest.dropWhile Decimal.isDigit)
  | rest => some ([], rest)

/-- The second of a time with its decimals, if it has one, and what follows it. -/
def second? : List Char → Option (List Char × List Char)
  | ':' :: s :: t :: rest =>
    match pair? 60 s t, decimals? rest with
    | some _, some (fraction, rest) => some (':' :: s :: t :: fraction, rest)
    | _, _ => none
  | rest => some ([], rest)

/-- A time of day, and what follows it. -/
def time? : List Char → Option (List Char × List Char)
  | h :: i :: ':' :: m :: n :: rest =>
    match pair? 23 h i, pair? 59 m n, second? rest with
    | some _, some _, some (second, rest) => some (h :: i :: ':' :: m :: n :: second, rest)
    | _, _, _ => none
  | _ => none

/-- An offset from UTC, or none, and nothing after it. -/
def offset? : List Char → Option (List Char)
  | [] => some []
  | [z] => if z = 'Z' ∨ z = 'z' then some ['Z'] else none
  | [sign, h, i, ':', m, n] =>
    match pair? 23 h i, pair? 59 m n with
    | some hours, some minutes =>
      if sign = '+' ∨ hours + minutes = 0 ∧ sign = '-' then some ['+', h, i, ':', m, n]
      else if sign = '-' then some ['-', h, i, ':', m, n]
      else none
    | _, _ => none
  | _ => none

def read? (cs : List Char) : Option (List Char) :=
  match date? cs with
  | some (date, []) => some date
  | some (date, t :: rest) =>
    if t = 'T' ∨ t = 't' ∨ t = ' ' then
      match time? rest with
      | some (time, rest) => (offset? rest).map fun offset => date ++ 'T' :: time ++ offset
      | none => none
    else none
  | none =>
    match time? cs with
    | some (time, []) => some time
    | _ => none

end InletRegistry.Toml.Moment
