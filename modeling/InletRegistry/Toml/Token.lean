import InletRegistry.Text.Digits

/-!
# Tokens of TOML

The marks, words, texts and line ends of a document in TOML 1.1, in the order in which they stand.
The scanner is a machine that takes one character at a time. A comment counts as white space. What
a word means is left open here: it may be part of a key, or a number, a truth value or a time.
-/

namespace InletRegistry.Toml

open InletRegistry.Text

/-- The marks that give a document its structure. -/
inductive Mark where
  | listStart
  | listEnd
  | tableStart
  | tableEnd
  | comma
  | dot
  | equals
  deriving DecidableEq, Repr

/-- A token of a document. -/
inductive Token where
  | mark (m : Mark)
  | newline
  /-- One single space. -/
  | space
  /-- Any other white space within a line. -/
  | blank
  /-- Characters that are none of the other tokens. -/
  | word (cs : List Char)
  /-- A text, and whether it is in the form that may have many lines. -/
  | text (s : String) (isLong : Bool)
  deriving DecidableEq, Repr

def Mark.ofChar? (c : Char) : Option Mark :=
  if c = '[' then some .listStart
  else if c = ']' then some .listEnd
  else if c = '\x7b' then some .tableStart
  else if c = '\x7d' then some .tableEnd
  else if c = ',' then some .comma
  else if c = '.' then some .dot
  else if c = '=' then some .equals
  else none

/-- Whether a character is refused in comments and texts: all control characters but the tab are. -/
def isControl (c : Char) : Bool := (c.toNat < 0x20 && c != '\t') || c.toNat == 0x7F

/-! ## Inside a text -/

/-- What has been read of an escape. -/
inductive TextEscape where
  | closed
  | opened
  /-- Digits of a character's number are still owed. -/
  | number (owed value : Nat)
  /-- The line ends in a backslash: white space is passed over, and `isBroken` tells whether the end
  of the line has been reached. -/
  | lineEnd (isBroken : Bool)
  deriving DecidableEq, Repr

/-- A text of which the closing quotes have not come. -/
structure OpenText where
  quote : Char
  isLong : Bool
  /-- The characters so far, latest first. -/
  done : List Char
  /-- Quotes just read that may belong to the closing ones. -/
  quotes : Nat
  escape : TextEscape
  /-- Whether a carriage return has been read whose line feed is owed. -/
  owesFeed : Bool
  isFresh : Bool
  deriving DecidableEq, Repr

namespace OpenText

def start (quote : Char) (isLong : Bool) : OpenText :=
  ⟨quote, isLong, [], 0, .closed, false, true⟩

def push (t : OpenText) (c : Char) : OpenText :=
  { t with done := c :: t.done, escape := .closed, isFresh := false }

/-- Takes quotes that turned out not to close the text for characters of it. -/
def keepQuotes (t : OpenText) : OpenText :=
  { t with done := List.replicate t.quotes t.quote ++ t.done, quotes := 0,
           isFresh := t.isFresh && t.quotes == 0 }

/-- Takes the end of a line: the first one in a text is left out, and so is one that a backslash
stands before. -/
def breakLine (t : OpenText) : OpenText :=
  let t := { t with owesFeed := false }
  match t.escape with
  | .lineEnd _ => { t with escape := .lineEnd true }
  | _ => if t.isFresh then { t with isFresh := false } else t.push '\n'

/-- The text as a token; of more than three quotes at its end, the first ones are part of it. -/
def close (t : OpenText) : Token :=
  .text (String.ofList (List.replicate (t.quotes - 3) t.quote ++ t.done).reverse) t.isLong

def short? (c : Char) : Option Char :=
  if c = '"' ∨ c = '\\' then some c
  else if c = 'b' then some (Char.ofNat 8)
  else if c = 'e' then some (Char.ofNat 27)
  else if c = 'f' then some (Char.ofNat 12)
  else if c = 'n' then some '\n'
  else if c = 'r' then some '\r'
  else if c = 't' then some '\t'
  else none

/-- How many digits follow the letter of an escape by number. -/
def escapeDigits? (c : Char) : Option Nat :=
  if c = 'x' then some 2 else if c = 'u' then some 4 else if c = 'U' then some 8 else none

/-- Takes a character that no escape and no quote is open before. -/
def takePlain? (t : OpenText) (c : Char) : Option OpenText :=
  if c = '\\' ∧ t.quote = '"' then some { t with escape := .opened, isFresh := false }
  else if c = '\n' then if t.isLong then some t.breakLine else none
  else if c = '\r' then if t.isLong then some { t with owesFeed := true } else none
  else if isControl c then none
  else some (t.push c)

/-- Takes a character after a backslash at the end of a line. -/
def takeBlank? (t : OpenText) (isBroken : Bool) (c : Char) : Option OpenText :=
  if c = ' ' ∨ c = '\t' then some { t with escape := .lineEnd isBroken }
  else if c = '\n' then some { t with escape := .lineEnd true }
  else if c = '\r' then some { t with escape := .lineEnd isBroken, owesFeed := true }
  else none

def takeEscaped? (t : OpenText) (c : Char) : Option OpenText :=
  match short? c, escapeDigits? c with
  | some d, _ => some (t.push d)
  | none, some n => some { t with escape := .number n 0 }
  | none, none => if t.isLong then t.takeBlank? false c else none

def takeDigit? (t : OpenText) (owed value : Nat) (c : Char) : Option OpenText :=
  match Hex.digit? c with
  | none => none
  | some d =>
    let value := value * 16 + d
    if owed > 1 then some { t with escape := .number (owed - 1) value }
    else if value.isValidChar then some (t.push (Char.ofNat value))
    else none

/-- Whether a character that is no quote ends the text. -/
def isClosed (t : OpenText) : Bool := t.isLong && 3 ≤ t.quotes

end OpenText

/-! ## The machine -/

/-- What the scanner is in the middle of. -/
inductive Mode where
  | between
  /-- Inside white space, and whether it is one space so far. -/
  | blank (isSingle : Bool)
  | comment
  /-- After a carriage return whose line feed is owed. -/
  | carriage
  /-- Inside a word, latest character first. -/
  | word (done : List Char)
  /-- After one opening quote, or after two. -/
  | quotes (quote : Char) (areTwo : Bool)
  | text (t : OpenText)

/-- The scanner between two characters. -/
structure Scanner where
  mode : Mode
  /-- The tokens so far, latest first. -/
  tokens : List Token

namespace Scanner

/-- The scanner before the first character. -/
def start : Scanner := ⟨.between, []⟩

/-- The tokens once what is in progress ends, unless it may not end here. -/
def close? (s : Scanner) : Option (List Token) :=
  match s.mode with
  | .between => some s.tokens
  | .blank isSingle => some ((if isSingle then .space else .blank) :: s.tokens)
  | .comment => some (.blank :: s.tokens)
  | .carriage => none
  | .word done => some (.word done.reverse :: s.tokens)
  | .quotes _ areTwo => if areTwo then some (.text "" false :: s.tokens) else none
  | .text t => if t.isClosed then some (t.close :: s.tokens) else none

def begin? (tokens : List Token) (c : Char) : Option Scanner :=
  if c = ' ' then some ⟨.blank true, tokens⟩
  else if c = '\t' then some ⟨.blank false, tokens⟩
  else if c = '\n' then some ⟨.between, .newline :: tokens⟩
  else if c = '\r' then some ⟨.carriage, tokens⟩
  else if c = '#' then some ⟨.comment, tokens⟩
  else if c = '"' ∨ c = '\x27' then some ⟨.quotes c false, tokens⟩
  else match Mark.ofChar? c with
    | some m => some ⟨.between, .mark m :: tokens⟩
    | none => some ⟨.word [c], tokens⟩

/-- Ends what is in progress and takes a character after it. -/
def restart? (s : Scanner) (c : Char) : Option Scanner :=
  s.close?.bind fun tokens => begin? tokens c

/-- Whether a character may stand in a word after its first one. -/
def isWordChar (c : Char) : Bool :=
  !(c == ' ' || c == '\t' || c == '\n' || c == '\r' || c == '#' || c == '"' || c == '\x27' ||
    (Mark.ofChar? c).isSome)

def takeText? (t : OpenText) (tokens : List Token) (c : Char) : Option Scanner :=
  if t.owesFeed then if c = '\n' then some ⟨.text t.breakLine, tokens⟩ else none
  else match t.escape with
    | .opened => (t.takeEscaped? c).map fun t => ⟨.text t, tokens⟩
    | .number owed value => (t.takeDigit? owed value c).map fun t => ⟨.text t, tokens⟩
    | .lineEnd isBroken =>
      match t.takeBlank? isBroken c with
      | some t => some ⟨.text t, tokens⟩
      | none => if isBroken then takeClosed? { t with escape := .closed } else none
    | .closed => takeClosed? t
where
  /-- Takes the character where no escape is open. -/
  takeClosed? (t : OpenText) : Option Scanner :=
    if c = t.quote then
      let t := { t with quotes := t.quotes + 1 }
      if !t.isLong then some ⟨.between, { t with quotes := 0 }.close :: tokens⟩
      else if t.quotes = 5 then some ⟨.between, t.close :: tokens⟩
      else some ⟨.text t, tokens⟩
    else if t.isClosed then begin? (t.close :: tokens) c
    else (t.keepQuotes.takePlain? c).map fun t => ⟨.text t, tokens⟩

def take? (s : Scanner) (c : Char) : Option Scanner :=
  match s.mode with
  | .between => begin? s.tokens c
  | .blank _ => if c = ' ' ∨ c = '\t' then some ⟨.blank false, s.tokens⟩ else s.restart? c
  | .comment =>
    if c = '\n' ∨ c = '\r' then s.restart? c else if isControl c then none else some s
  | .carriage => if c = '\n' then some ⟨.between, .newline :: s.tokens⟩ else none
  | .word done => if isWordChar c then some ⟨.word (c :: done), s.tokens⟩ else s.restart? c
  | .quotes quote areTwo =>
    if c = quote then
      some ⟨if areTwo then .text (.start quote true) else .quotes quote true, s.tokens⟩
    else if areTwo then s.restart? c
    else takeText? (.start quote false) s.tokens c
  | .text t => takeText? t s.tokens c

end Scanner

def Token.scan? (cs : List Char) : Option (List Token) :=
  ((cs.foldlM Scanner.take? Scanner.start).bind Scanner.close?).map List.reverse

end InletRegistry.Toml
