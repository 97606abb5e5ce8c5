import InletRegistry.Json.Basic
import InletRegistry.Text.Digits

/-!
# Tokens of JSON

The marks, literals, numbers and texts of a document, in the order in which they stand. The scanner
is a machine that takes one symbol at a time, where a symbol is a character or a mark for octets
that could not be decoded. Such a mark, and half of a surrogate pair, makes a text undecodable
without making the document ill-formed; outside a text the mark is an error, and so is a control
character inside one.
-/

namespace InletRegistry.Json

open InletRegistry.Text

/-- A character of a document, or a mark for what could not be decoded. -/
abbrev Symbol := Option Char

/-- The six marks that give a document its structure. -/
inductive Mark where
  | listStart
  | listEnd
  | objectStart
  | objectEnd
  | comma
  | colon
  deriving DecidableEq, Repr

/-- A token of a document. -/
inductive Token where
  | mark (m : Mark)
  /-- A document without parts: a literal, a number or a text. -/
  | scalar (s : Source)

def Mark.ofChar? (c : Char) : Option Mark :=
  if c = '[' then some .listStart
  else if c = ']' then some .listEnd
  else if c = '\x7b' then some .objectStart
  else if c = '\x7d' then some .objectEnd
  else if c = ',' then some .comma
  else if c = ':' then some .colon
  else none

/-! ## Inside a text -/

/-- What has been read of an escape. -/
inductive TextEscape where
  | closed
  | opened
  /-- Digits of a code unit are still owed. -/
  | unit (owed value : Nat)

/-- A text of which the closing quote has not come. -/
structure OpenText where
  /-- The characters so far, latest first. -/
  done : List Char
  isSound : Bool
  /-- A high surrogate that waits for its low half. -/
  high : Option Nat
  escape : TextEscape

namespace OpenText

def empty : OpenText := ⟨[], true, none, .closed⟩

/-- Puts a character on the text; a high surrogate in front of it stays alone. -/
def push (t : OpenText) (c : Char) : OpenText :=
  ⟨c :: t.done, t.isSound && t.high.isNone, none, .closed⟩

def spoil (t : OpenText) : OpenText := ⟨t.done, false, none, .closed⟩

/-- Puts an escaped code unit on the text. -/
def pushUnit (t : OpenText) (n : Nat) : OpenText :=
  if 0xD800 ≤ n ∧ n < 0xDC00 then
    ⟨t.done, t.isSound && t.high.isNone, some n, .closed⟩
  else if 0xDC00 ≤ n ∧ n < 0xE000 then
    match t.high with
    | some h => ⟨Char.ofNat (0x10000 + (h - 0xD800) * 0x400 + (n - 0xDC00)) :: t.done, t.isSound,
        none, .closed⟩
    | none => t.spoil
  else t.push (Char.ofNat n)

def short? (c : Char) : Option Char :=
  if c = '"' ∨ c = '\\' ∨ c = '/' then some c
  else if c = 'b' then some (Char.ofNat 8)
  else if c = 'f' then some (Char.ofNat 12)
  else if c = 'n' then some '\n'
  else if c = 'r' then some '\r'
  else if c = 't' then some '\t'
  else none

/-- The text, unless part of it could not be decoded. -/
def close (t : OpenText) : Option String :=
  if t.isSound && t.high.isNone then some (String.ofList t.done.reverse) else none

end OpenText

/-! ## The machine -/

/-- What the scanner is in the middle of. -/
inductive Mode where
  | between
  /-- Inside a literal, latest character first. -/
  | word (done : List Char)
  /-- Inside a number, latest character first. -/
  | numeral (done : List Char)
  | text (t : OpenText)

/-- The scanner between two symbols. -/
structure Scanner where
  mode : Mode
  /-- The tokens so far, latest first. -/
  tokens : List Token

namespace Scanner

/-- The scanner before the first symbol. -/
def start : Scanner := ⟨.between, []⟩

def isNumeralChar (c : Char) : Bool :=
  Decimal.isDigit c || c == '-' || c == '+' || c == '.' || c == 'e' || c == 'E'

def isWordChar (c : Char) : Bool := 'a' ≤ c && c ≤ 'z'

def isSpace (c : Char) : Bool := c == ' ' || c == '\n' || c == '\r' || c == '\t'

def literal? (word : List Char) : Option Source :=
  if word = ['n', 'u', 'l', 'l'] then some .null
  else if word = ['t', 'r', 'u', 'e'] then some (.bool true)
  else if word = ['f', 'a', 'l', 's', 'e'] then some (.bool false)
  else none

def begin? (tokens : List Token) (c : Char) : Option Scanner :=
  if isSpace c then some ⟨.between, tokens⟩
  else match Mark.ofChar? c with
    | some m => some ⟨.between, .mark m :: tokens⟩
    | none =>
      if c = '"' then some ⟨.text .empty, tokens⟩
      else if Decimal.isDigit c || c == '-' then some ⟨.numeral [c], tokens⟩
      else if isWordChar c then some ⟨.word [c], tokens⟩
      else none

/-- The tokens once what is in progress ends, unless it may not end here. -/
def close? (s : Scanner) : Option (List Token) :=
  match s.mode with
  | .between => some s.tokens
  | .word done => (literal? done.reverse).map fun l => .scalar l :: s.tokens
  | .numeral done =>
    (Numeral.ofChars? done.reverse).map fun n => .scalar (.number n.number?) :: s.tokens
  | .text _ => none

def takeText? (t : OpenText) (tokens : List Token) (c : Char) : Option Scanner :=
  match t.escape with
  | .closed =>
    if c = '"' then some ⟨.between, .scalar (.text t.close) :: tokens⟩
    else if c = '\\' then some ⟨.text ⟨t.done, t.isSound, t.high, .opened⟩, tokens⟩
    else if c.toNat < 0x20 then none
    else some ⟨.text (t.push c), tokens⟩
  | .opened =>
    if c = 'u' then some ⟨.text ⟨t.done, t.isSound, t.high, .unit 4 0⟩, tokens⟩
    else (OpenText.short? c).map fun d => ⟨.text (t.push d), tokens⟩
  | .unit owed value =>
    match Hex.digit? c with
    | none => none
    | some d =>
      if owed ≤ 1 then some ⟨.text (t.pushUnit (value * 16 + d)), tokens⟩
      else some ⟨.text ⟨t.done, t.isSound, t.high, .unit (owed - 1) (value * 16 + d)⟩, tokens⟩

def takeChar? (s : Scanner) (c : Char) : Option Scanner :=
  match s.mode with
  | .between => begin? s.tokens c
  | .word done =>
    if isWordChar c then some ⟨.word (c :: done), s.tokens⟩
    else s.close?.bind fun tokens => begin? tokens c
  | .numeral done =>
    if isNumeralChar c then some ⟨.numeral (c :: done), s.tokens⟩
    else s.close?.bind fun tokens => begin? tokens c
  | .text t => takeText? t s.tokens c

/-- Takes a symbol: what could not be decoded may only stand inside a text. -/
def take? (s : Scanner) : Symbol → Option Scanner
  | some c => s.takeChar? c
  | none =>
    match s.mode with
    | .text t =>
      match t.escape with
      | .closed => some ⟨.text t.spoil, s.tokens⟩
      | _ => none
    | _ => none

def run? : Scanner → List Symbol → Option Scanner
  | s, [] => some s
  | s, c :: rest =>
    match s.take? c with
    | some s => run? s rest
    | none => none

/-- Taking symbols in two parts is taking them at once. -/
theorem run?_append (s : Scanner) (xs ys : List Symbol) :
    s.run? (xs ++ ys) = (s.run? xs).bind fun t => t.run? ys := by
  induction xs generalizing s with
  | nil => rfl
  | cons x xs ih =>
    simp only [List.cons_append, run?]
    split
    · exact ih _
    · rfl

end Scanner

def Token.scan? (symbols : List Symbol) : Option (List Token) :=
  ((Scanner.start.run? symbols).bind Scanner.close?).map List.reverse

end InletRegistry.Json
