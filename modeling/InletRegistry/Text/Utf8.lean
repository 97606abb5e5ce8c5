/-!
# UTF-8

Characters as octets and back. Reading is a machine that takes one octet at a time and marks what
it cannot decode: every maximal run of octets that starts like a character and does not become one
yields one mark (`none`), and so does every octet that starts none. The strict reading refuses a
marked text; the lenient one puts the replacement character in place of every mark.
-/

namespace InletRegistry.Text.Utf8

/-! ## Writing -/

def encodeChar (c : Char) : List UInt8 :=
  let n := c.toNat
  if n < 0x80 then [UInt8.ofNat n]
  else if n < 0x800 then [UInt8.ofNat (0xC0 + n / 0x40), UInt8.ofNat (0x80 + n % 0x40)]
  else if n < 0x10000 then
    [UInt8.ofNat (0xE0 + n / 0x1000), UInt8.ofNat (0x80 + n / 0x40 % 0x40),
      UInt8.ofNat (0x80 + n % 0x40)]
  else
    [UInt8.ofNat (0xF0 + n / 0x40000), UInt8.ofNat (0x80 + n / 0x1000 % 0x40),
      UInt8.ofNat (0x80 + n / 0x40 % 0x40), UInt8.ofNat (0x80 + n % 0x40)]

def encodeList (cs : List Char) : List UInt8 := cs.flatMap encodeChar

def encode (s : String) : List UInt8 := encodeList s.toList

/-! ## Reading -/

/-- A character of which some octets have been read. -/
structure Begun where
  /-- How many octets are still owed. -/
  owed : Nat
  /-- The least octet that may come next. -/
  low : Nat
  /-- The greatest octet that may come next. -/
  high : Nat
  /-- The bits read so far. -/
  bits : Nat

/-- The machine between two octets: the character in progress and the ones read, latest first. -/
structure Scan where
  begun : Option Begun
  /-- What has been read, latest first; `none` where nothing could be decoded. -/
  done : List (Option Char)

/-- What an octet begins when no character is in progress. -/
def Scan.first (done : List (Option Char)) (b : Nat) : Scan :=
  if b < 0x80 then ⟨none, some (Char.ofNat b) :: done⟩
  else if b < 0xC2 then ⟨none, none :: done⟩
  else if b < 0xE0 then ⟨some ⟨1, 0x80, 0xBF, b - 0xC0⟩, done⟩
  else if b < 0xF0 then
    ⟨some ⟨2, if b = 0xE0 then 0xA0 else 0x80, if b = 0xED then 0x9F else 0xBF, b - 0xE0⟩, done⟩
  else if b < 0xF5 then
    ⟨some ⟨3, if b = 0xF0 then 0x90 else 0x80, if b = 0xF4 then 0x8F else 0xBF, b - 0xF0⟩, done⟩
  else ⟨none, none :: done⟩

def Scan.take (s : Scan) (octet : UInt8) : Scan :=
  let b := octet.toNat
  match s.begun with
  | none => Scan.first s.done b
  | some p =>
    if p.low ≤ b ∧ b ≤ p.high then
      let bits := p.bits * 0x40 + (b - 0x80)
      if p.owed ≤ 1 then ⟨none, some (Char.ofNat bits) :: s.done⟩
      else ⟨some ⟨p.owed - 1, 0x80, 0xBF, bits⟩, s.done⟩
    else Scan.first (none :: s.done) b

def Scan.finish (s : Scan) : List (Option Char) :=
  match s.begun with
  | none => s.done.reverse
  | some _ => (none :: s.done).reverse

/-- Octets as characters, with a mark for every stretch that is not UTF-8. -/
def marked (bs : List UInt8) : List (Option Char) :=
  (bs.foldl Scan.take ⟨none, []⟩).finish

/-- The character that stands for what cannot be decoded. -/
def replacement : Char := '\uFFFD'

/-- Octets as characters, each undecodable stretch replaced. -/
def lenient (bs : List UInt8) : List Char := (marked bs).map (·.getD replacement)

/-- Octets as characters, or nothing unless all of them are UTF-8. -/
def strict? (bs : List UInt8) : Option (List Char) :=
  let symbols := marked bs
  if symbols.all Option.isSome then some (symbols.map (·.getD replacement)) else none

end InletRegistry.Text.Utf8
