import InletRegistry.Settings.Basic

/-!
# Tables of TOML

A document's tables while they are being filled. A name may be given one value only. A table comes
about under a heading, by a dotted key, or because a heading names a table inside it; a heading may
still take over a table of the last kind, and a dotted key goes on only in tables of its own making.
A value, and so a table that is written as a value, is never added to.
-/

namespace InletRegistry.Toml

/-- A key: names of tables and a name in the innermost one. -/
structure Key where
  /-- The names of the tables, from the outside in. -/
  path : List String
  name : String
  deriving DecidableEq, Repr

/-- How a table came about. -/
inductive Origin where
  | implied
  | dotted
  | defined
  deriving DecidableEq, Repr

/-- What a name in a table stands for. -/
inductive Item where
  | value (s : Setting)
  | table (origin : Origin) (entries : List (String × Item))
  /-- A list of tables, each under a heading of its own. -/
  | tables (all : List (List (String × Item)))

abbrev Entries := List (String × Item)

namespace Item

mutual

def toSetting : Item → Setting
  | .value s => s
  | .table _ entries => .table (toSettings entries)
  | .tables all => .list (tablesToSettings all)

def toSettings : List (String × Item) → List (String × Setting)
  | [] => []
  | (n, i) :: rest => (n, toSetting i) :: toSettings rest

def tablesToSettings : List (List (String × Item)) → List Setting
  | [] => []
  | entries :: rest => .table (toSettings entries) :: tablesToSettings rest

end

end Item

namespace Entries

/-- Entries with another item for a name that is among them. -/
def replace (name : String) (item : Item) (entries : Entries) : Entries :=
  entries.map fun e => if e.1 = name then (name, item) else e

/-- Changes the entries of the table to which a path leads, in the last one where it comes to a list
of tables. Tables that were not there come about on the way. -/
def alter? (change : Origin → Entries → Option Entries) (isDotted : Bool) :
    List String → Origin → Entries → Option Entries
  | [], origin, entries => change origin entries
  | name :: path, _, entries =>
    match entries.lookup name with
    | none =>
      let origin := if isDotted then Origin.dotted else .implied
      (alter? change isDotted path origin []).map fun inner =>
        entries ++ [(name, .table origin inner)]
    | some (.value _) => none
    | some (.table origin inner) =>
      if isDotted ∧ origin = .defined then none
      else (alter? change isDotted path origin inner).map fun inner =>
        replace name (.table origin inner) entries
    | some (.tables all) =>
      match all.getLast? with
      | none => none
      | some last =>
        (alter? change isDotted path .defined last).map fun last =>
          replace name (.tables (all.dropLast ++ [last])) entries

def put? (entries : Entries) (key : Key) (s : Setting) : Option Entries :=
  alter? (fun origin inner =>
    if (origin = .dotted ↔ key.path = []) ∨ (inner.lookup key.name).isSome then none
    else some (inner ++ [(key.name, .value s)])) (key.path ≠ []) key.path .defined entries

/-- Gives keys their values, one after another. -/
def putAll? (entries : Entries) (values : List (Key × Setting)) : Option Entries :=
  values.foldlM (fun entries (key, s) => entries.put? key s) entries

end Entries

/-! ## Sections -/

/-- A heading, for a table or for one more table of a list. -/
structure Heading where
  isOfList : Bool
  key : Key
  deriving DecidableEq, Repr

/-- A heading and what stands under it. -/
structure Section where
  heading : Heading
  values : List (Key × Setting)

namespace Entries

def addSection? (root : Entries) (s : Section) : Option Entries :=
  let name := s.heading.key.name
  alter? (fun _ entries =>
    match s.heading.isOfList, entries.lookup name with
    | true, none =>
      (putAll? [] s.values).map fun inner => entries ++ [(name, .tables [inner])]
    | true, some (.tables all) =>
      (putAll? [] s.values).map fun inner => replace name (.tables (all ++ [inner])) entries
    | false, none =>
      (putAll? [] s.values).map fun inner => entries ++ [(name, .table .defined inner)]
    | false, some (.table .implied inner) =>
      (putAll? inner s.values).map fun inner => replace name (.table .defined inner) entries
    | _, _ => none) false s.heading.key.path .defined root

end Entries

end InletRegistry.Toml
