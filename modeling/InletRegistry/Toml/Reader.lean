import InletRegistry.Toml.Scalar
import InletRegistry.Toml.Table
import InletRegistry.Toml.Token

/-!
# Reading TOML

Tokens are put together to lines by a machine that keeps the lists and inner tables still open, at
most eighty of them; the lines are the values and headings of which the document's tables are made.
-/

namespace InletRegistry.Toml

/-- A line that is not empty. -/
inductive Line where
  | entry (key : Key) (s : Setting)
  | heading (h : Heading)

/-! ## Lines -/

/-- Where a key stands. -/
inductive KeyPlace where
  | line
  /-- In a heading, and whether that is one of a list. -/
  | heading (isOfList : Bool)
  /-- In front of a value in a table within a line; the table's entries so far are kept. -/
  | inner (done : Entries)

/-- What a value is part of. -/
inductive Frame where
  | line (key : Key)
  /-- A list and its items so far, latest first. -/
  | list (done : List Setting)
  /-- A table within a line, its entries so far, and the key that waits for its value. -/
  | inner (done : Entries) (key : Key)

/-- What may come next. -/
inductive Expectation where
  | line
  /-- A heading's key, or the second bracket of a list's heading. -/
  | heading
  /-- A name of a key; those before it are kept, latest first. -/
  | name (place : KeyPlace) (done : List String)
  /-- What goes on after a name of a key. -/
  | afterName (place : KeyPlace) (done : List String) (name : String)
  /-- The second bracket at the end of a list's heading. -/
  | headingEnd (key : Key)
  | lineEnd
  | value
  /-- An item of a list, or the list's end. -/
  | itemOrEnd (done : List Setting)
  /-- An entry of a table within a line, or the table's end. -/
  | entryOrEnd (done : Entries)
  /-- More of a scalar, latest character first, or what follows it. -/
  | scalar (done : List Char)
  /-- More of a scalar after one space, or what follows it. -/
  | spacedScalar (done : List Char)
  | more (latest : Setting)

/-- The machine between two tokens. -/
structure Reader where
  /-- The lines so far, latest first. -/
  lines : List Line
  /-- What is open, innermost first. -/
  frames : List Frame
  expects : Expectation

namespace Reader

/-- The machine before the first token. -/
def start : Reader := ⟨[], [], .line⟩

def expecting (r : Reader) (e : Expectation) : Reader := { r with expects := e }

/-- The lists and tables that a value may stand in. -/
def greatestDepth : Nat := 80

def isBlank : Token → Bool
  | .space => true
  | .blank => true
  | _ => false

/-- Whether a token may stand between the items of a list, or the entries of a table. -/
def isFiller (t : Token) : Bool := isBlank t || t == .newline

/-! ### Keys -/

/-- Whether a character may stand in a name without quotes. -/
def isBareChar (c : Char) : Bool := c.isAlphanum || c == '_' || c == '-'

def name? : Token → Option String
  | .word cs => if cs.all isBareChar then some (String.ofList cs) else none
  | .text s false => some s
  | _ => none

def takeName? (r : Reader) (place : KeyPlace) (done : List String) (t : Token) : Option Reader :=
  if isBlank t then some (r.expecting (.name place done))
  else (name? t).map fun n => r.expecting (.afterName place done n)

def takeAfterName? (r : Reader) (place : KeyPlace) (done : List String) (name : String)
    (t : Token) : Option Reader :=
  let key : Key := ⟨done.reverse, name⟩
  match t, place with
  | .space, _ => some r
  | .blank, _ => some r
  | .mark .dot, _ => some (r.expecting (.name place (name :: done)))
  | .mark .equals, .line => some ⟨r.lines, [.line key], .value⟩
  | .mark .equals, .inner entries => some ⟨r.lines, .inner entries key :: r.frames, .value⟩
  | .mark .listEnd, .heading false => some ⟨.heading ⟨false, key⟩ :: r.lines, [], .lineEnd⟩
  | .mark .listEnd, .heading true => some (r.expecting (.headingEnd key))
  | _, _ => none

/-! ### Values -/

/-- Opens a list or a table, unless too many are open. -/
def open? (r : Reader) (e : Expectation) : Option Reader :=
  if r.frames.length ≤ greatestDepth then some (r.expecting e) else none

def takeValue? (r : Reader) : Token → Option Reader
  | .text s _ => some (r.expecting (.more (.text s)))
  | .word cs => some (r.expecting (.scalar cs.reverse))
  | .mark .dot => some (r.expecting (.scalar ['.']))
  | .mark .listStart => r.open? (.itemOrEnd [])
  | .mark .tableStart => r.open? (.entryOrEnd [])
  | _ => none

/-- Takes a token where an item of a list, or the list's end, may stand. -/
def takeItem? (r : Reader) (done : List Setting) (t : Token) : Option Reader :=
  if isFiller t then some r
  else if t = .mark .listEnd then some (r.expecting (.more (.list done.reverse)))
  else takeValue? { r with frames := .list done :: r.frames } t

/-- Takes a token where an entry of a table within a line, or the table's end, may stand. -/
def takeEntry? (r : Reader) (done : Entries) (t : Token) : Option Reader :=
  if isFiller t then some r
  else if t = .mark .tableEnd then some (r.expecting (.more (.table (Item.toSettings done))))
  else r.takeName? (.inner done) [] t

def takeMore? (r : Reader) (latest : Setting) (t : Token) : Option Reader :=
  match r.frames, t with
  | .line key :: _, .newline => some ⟨.entry key latest :: r.lines, [], .line⟩
  | .line _ :: _, t => if isBlank t then some (r.expecting (.more latest)) else none
  | .list done :: frames, .mark .comma => some ⟨r.lines, frames, .itemOrEnd (latest :: done)⟩
  | .list done :: frames, .mark .listEnd =>
    some ⟨r.lines, frames, .more (.list (latest :: done).reverse)⟩
  | .inner done key :: frames, .mark .comma =>
    (done.put? key latest).map fun done => ⟨r.lines, frames, .entryOrEnd done⟩
  | .inner done key :: frames, .mark .tableEnd =>
    (done.put? key latest).map fun done =>
      ⟨r.lines, frames, .more (.table (Item.toSettings done))⟩
  | _ :: _, t => if isFiller t then some (r.expecting (.more latest)) else none
  | [], _ => none

def takeAfterScalar? (r : Reader) (done : List Char) (t : Token) : Option Reader :=
  (Scalar.read? done.reverse).bind fun s => r.takeMore? s t

def takeScalar? (r : Reader) (done : List Char) : Token → Option Reader
  | .word cs => some (r.expecting (.scalar (cs.reverse ++ done)))
  | .mark .dot => some (r.expecting (.scalar ('.' :: done)))
  | .space => some (r.expecting (.spacedScalar done))
  | t => r.takeAfterScalar? done t

/-! ### The whole -/

def take? (r : Reader) (t : Token) : Option Reader :=
  match r.expects with
  | .line =>
    if isFiller t then some r
    else if t = .mark .listStart then some (r.expecting .heading)
    else r.takeName? .line [] t
  | .heading =>
    if t = .mark .listStart then some (r.expecting (.name (.heading true) []))
    else r.takeName? (.heading false) [] t
  | .name place done => r.takeName? place done t
  | .afterName place done name => r.takeAfterName? place done name t
  | .headingEnd key =>
    if t = .mark .listEnd then some ⟨.heading ⟨true, key⟩ :: r.lines, [], .lineEnd⟩ else none
  | .lineEnd =>
    if t = .newline then some (r.expecting .line) else if isBlank t then some r else none
  | .value => if isBlank t then some r else r.takeValue? t
  | .itemOrEnd done => r.takeItem? done t
  | .entryOrEnd done => r.takeEntry? done t
  | .scalar done => r.takeScalar? done t
  | .spacedScalar done =>
    match t with
    | .word cs => some (r.expecting (.scalar (cs.reverse ++ ' ' :: done)))
    | t => r.takeAfterScalar? done t
  | .more latest => r.takeMore? latest t

/-- The lines of some tokens, of which the last one need not have an end. -/
def lines? (tokens : List Token) : Option (List Line) :=
  match (tokens ++ [Token.newline]).foldlM take? start with
  | some ⟨lines, _, .line⟩ => some lines.reverse
  | _ => none

end Reader

/-! ## Documents -/

/-- The values before the first heading, and the sections. -/
def sections : List Line → List (Key × Setting) × List Section
  | [] => ([], [])
  | .entry key s :: rest =>
    let (values, later) := sections rest
    ((key, s) :: values, later)
  | .heading h :: rest =>
    let (values, later) := sections rest
    ([], ⟨h, values⟩ :: later)

def Entries.ofLines? (lines : List Line) : Option Entries :=
  let (values, later) := sections lines
  (Entries.putAll? [] values).bind fun root => later.foldlM Entries.addSection? root

def read? (cs : List Char) : Option (List (String × Setting)) :=
  let cs := match cs with
    | '\uFEFF' :: rest => rest
    | _ => cs
  (((Token.scan? cs).bind Reader.lines?).bind Entries.ofLines?).map Item.toSettings

end InletRegistry.Toml
