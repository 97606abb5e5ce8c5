import InletRegistry.Text.Digits
import InletRegistry.Text.Pieces
import InletRegistry.Text.Utf8

/-!
# Percent escapes and form-encoded queries

An octet that may not stand in a URI is written as a percent sign and two hexadecimal digits in
upper case. Reading takes either letter case and leaves a percent sign alone that starts no escape.

`idSafe` is the set for the id of a resource in a path: control characters, everything outside
ASCII and the six characters `/ % space ? # &` are escaped, all else stands as it is.

A query is a list of pairs joined by ampersands; within a pair the first equals sign ends the name.
A plus sign stands for a space there, escapes for octets, and octets that are not UTF-8 for the
replacement character. Empty pieces between ampersands are no pairs.
-/

namespace InletRegistry.Text.Percent

/-- One octet escaped. -/
def escape (b : UInt8) : List Char := ['%', Hex.upper (b.toNat / 16), Hex.upper (b.toNat % 16)]

/-- Octets in which those that are not safe are escaped. -/
def encodeOctets (safe : UInt8 → Bool) (bs : List UInt8) : List Char :=
  bs.flatMap fun b => if safe b then [Char.ofNat b.toNat] else escape b

/-- A text in which the octets that are not safe are escaped. -/
def encode (safe : UInt8 → Bool) (cs : List Char) : List Char :=
  encodeOctets safe (Utf8.encodeList cs)

/-- The octets of a resource id that stand in a path as they are. -/
def idSafe (b : UInt8) : Bool :=
  0x20 < b && b < 0x7F && b ≠ '/'.toNat.toUInt8 && b ≠ '%'.toNat.toUInt8 &&
    b ≠ '?'.toNat.toUInt8 && b ≠ '#'.toNat.toUInt8 && b ≠ '&'.toNat.toUInt8

/-- What is left to read of an escape: nothing, its second digit, or both. -/
inductive Escape where
  | closed
  /-- A percent sign has been read. -/
  | opened
  /-- A percent sign and one digit have been read. -/
  | half (digit : Char)

/-- The reader between two characters: the escape in progress and the octets read, latest first. -/
structure Scan where
  escape : Escape
  /-- The octets read, latest first. -/
  done : List UInt8

/-- Puts a character's octets on what has been read. -/
def Scan.keep (done : List UInt8) (c : Char) : List UInt8 :=
  (Utf8.encodeChar c).reverse ++ done

/-- Takes a character when no escape is in progress. -/
def Scan.outside (done : List UInt8) (c : Char) : Scan :=
  if c = '%' then ⟨.opened, done⟩ else ⟨.closed, Scan.keep done c⟩

def Scan.take (s : Scan) (c : Char) : Scan :=
  match s.escape with
  | .closed => Scan.outside s.done c
  | .opened =>
    match Hex.digit? c with
    | some _ => ⟨.half c, s.done⟩
    | none => Scan.outside (Scan.keep s.done '%') c
  | .half d =>
    match Hex.digit? d, Hex.digit? c with
    | some h, some l => ⟨.closed, UInt8.ofNat (h * 16 + l) :: s.done⟩
    | _, _ => Scan.outside (Scan.keep (Scan.keep s.done '%') d) c

def Scan.finish (s : Scan) : List UInt8 :=
  match s.escape with
  | .closed => s.done.reverse
  | .opened => (Scan.keep s.done '%').reverse
  | .half d => (Scan.keep (Scan.keep s.done '%') d).reverse

/-- A text with its escapes replaced by the octets that they stand for. -/
def decode (cs : List Char) : List UInt8 := (cs.foldl Scan.take ⟨.closed, []⟩).finish

end InletRegistry.Text.Percent

namespace InletRegistry.Text.Form

/-- One name or value, decoded. -/
def decodePart (cs : List Char) : String :=
  String.ofList (Utf8.lenient (Percent.decode (cs.map fun c => if c = '+' then ' ' else c)))

/-- A pair, split at its first equals sign. -/
def decodePair (cs : List Char) : String × String :=
  (decodePart (cs.takeWhile (· ≠ '=')), decodePart ((cs.dropWhile (· ≠ '=')).drop 1))

def decode (query : String) : List (String × String) :=
  ((pieces '&' query.toList).filter (· ≠ [])).map decodePair

end InletRegistry.Text.Form
