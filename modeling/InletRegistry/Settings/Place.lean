import InletRegistry.Settings.Basic

/-!
# Places in settings

A place says where a setting belongs: names of tables and indices of lists, from the outside in, as
in `grants[0].principal`. `Setting.put` puts a value there. A table is merged with what the place
holds, entry by entry; any other value replaces it. What stands in the way of a place gives way to
it: there is always a table where a name leads and a list that is long enough where an index leads.
-/

namespace InletRegistry.Settings

open InletRegistry.Text

/-- A step of a place. -/
inductive Step where
  | name (n : String)
  /-- To the item of an index, which counts from the end where it is negative. -/
  | index (i : Int)
  deriving DecidableEq, Repr

/-- A place in settings, from the outside in. -/
abbrev Place := List Step

namespace Place

/-! ## Reading -/

/-- What has been read of a step. -/
inductive OpenStep where
  /-- A name, latest character first. -/
  | name (done : List Char)
  /-- An index, latest character first. -/
  | index (done : List Char)
  /-- Nothing, after an index. -/
  | closed

def isNameChar (c : Char) : Bool := c.isAlphanum || c == ' ' || c == '_' || c == '-'

def isSpace (c : Char) : Bool := c == ' ' || c == '\t'

/-- The least number that an index does not reach. -/
def indexEnd : Nat := Nat.pow 2 63

/-- The index of 64 bits that some characters spell; spaces may surround it. -/
def index? (cs : List Char) : Option Int :=
  let trimmed := ((cs.dropWhile isSpace).reverse.dropWhile isSpace).reverse
  let spelled : Option Int := match trimmed with
    | '-' :: digits => (Decimal.plain? digits).map fun n => -(n : Int)
    | digits => (Decimal.plain? digits).map Int.ofNat
  spelled.bind fun i => if -(indexEnd : Int) ≤ i ∧ i < indexEnd then some i else none

def named? (steps : Place) (done : List Char) : Option Place :=
  if done = [] then none else some (.name (String.ofList done.reverse) :: steps)

/-- Takes a character after some steps, latest first. -/
def take? : Place × OpenStep → Char → Option (Place × OpenStep)
  | (steps, .name done), c =>
    if isNameChar c then some (steps, .name (c :: done))
    else if c = '.' then (named? steps done).map fun steps => (steps, .name [])
    else if c = '[' then (named? steps done).map fun steps => (steps, .index [])
    else none
  | (steps, .index done), c =>
    if c = ']' then (index? done.reverse).map fun i => (.index i :: steps, .closed)
    else some (steps, .index (c :: done))
  | (steps, .closed), c =>
    if c = '.' then some (steps, .name [])
    else if c = '[' then some (steps, .index [])
    else none

def read? (s : String) : Option Place :=
  match s.toList.foldlM take? ([], .name []) with
  | some (steps, .name done) => (named? steps done).map List.reverse
  | some (steps, .closed) => some steps.reverse
  | _ => none

/-- The place that a key leads to: the one that it spells, or else the entry of that very name. -/
def ofKey (key : String) : Place := (read? key).getD [.name key]

end Place

end InletRegistry.Settings

namespace InletRegistry.Setting

open InletRegistry.Settings

/-! ## Putting -/

/-- The entries of a table; what is none has none. -/
def entries : Setting → List (String × Setting)
  | .table entries => entries
  | _ => []

/-- The items of a list; what is none has none. -/
def items : Setting → List Setting
  | .list items => items
  | _ => []

/-- Changes the entry of a name; one that was not there stands for nothing before. -/
def alterEntry (name : String) (f : Setting → Setting) :
    List (String × Setting) → List (String × Setting)
  | [] => [(name, f .nothing)]
  | (n, s) :: rest => if n = name then (n, f s) :: rest else (n, s) :: alterEntry name f rest

/-- Items with nothing in front of them or behind them, so that an index leads to one of them, and
where that one stands. -/
def reaching (i : Int) (items : List Setting) : List Setting × Nat :=
  if 0 ≤ i then (items ++ List.replicate (i.toNat + 1 - items.length) .nothing, i.toNat)
  else (List.replicate (i.natAbs - items.length) .nothing ++ items, items.length - i.natAbs)

def alter (f : Setting → Setting) : Place → Setting → Setting
  | [], s => f s
  | .name n :: rest, s => .table (alterEntry n (alter f rest) s.entries)
  | .index i :: rest, s =>
    let (items, n) := reaching i s.items
    .list (items.modify n (alter f rest))

mutual

def merge (old : Setting) : Setting → Setting
  | .table entries =>
    mergeEntries (match old with
      | .nothing => .table []
      | old => old) entries
  | other => other

def mergeEntries (old : Setting) : List (String × Setting) → Setting
  | [] => old
  | (n, s) :: rest => mergeEntries (.table (alterEntry n (fun o => merge o s) old.entries)) rest

end

def put (s : Setting) (place : Place) (value : Setting) : Setting :=
  s.alter (fun old => merge old value) place

/-- Puts values where their keys lead, one after another. -/
def putAll (s : Setting) (values : List (String × Setting)) : Setting :=
  values.foldl (fun s (key, value) => s.put (Place.ofKey key) value) s

end InletRegistry.Setting
