import InletRegistry.Json.Number

/-!
# JSON values

`Json` is a value that the registry keeps and writes. `Source` is a document as it was read, before
anything is asked of it: it still has repeated names in an object, text that cannot be decoded
(`none`) and numbers out of range (`none`). What a record skips may hold any of these; what it keeps
may not, and `Source.value?` is the passage from one to the other.

In a kept object each name stands once, with the last value given to it, and names stand in the
order of their characters.
-/

namespace InletRegistry

/-- A JSON value. -/
inductive Json where
  | null
  | bool (b : Bool)
  | number (n : Json.Number)
  | text (s : String)
  | list (items : List Json)
  /-- Named values in the order in which they are written. -/
  | object (fields : List (String × Json))
  deriving Repr, Inhabited

namespace Json

def natural (n : Nat) : Json := .number (.natural n)

/-- A text, or `null` where there is none. -/
def ofText? : Option String → Json
  | some s => .text s
  | none => .null

/-- A natural number, or `null` where there is none. -/
def ofNatural? : Option Nat → Json
  | some n => natural n
  | none => .null

/-- A document as it was read. -/
inductive Source where
  | null
  | bool (b : Bool)
  /-- A number, unless it is out of range. -/
  | number (n : Option Number)
  /-- A text, unless it cannot be decoded. -/
  | text (s : Option String)
  | list (items : List Source)
  /-- Named documents in the order of the text, repeated names included. -/
  | object (fields : List (Option String × Source))
  deriving Inhabited

/-- Puts a named value where its name belongs, in place of a value that has that name. -/
def insertSorted {α : Type} (name : String) (value : α) : List (String × α) → List (String × α)
  | [] => [(name, value)]
  | (n, v) :: rest =>
    if name = n then (name, value) :: rest
    else if name < n then (name, value) :: (n, v) :: rest
    else (n, v) :: insertSorted name value rest

/-- Named values sorted by name, of which the last one of each name stands. -/
def sortFields {α : Type} (fields : List (String × α)) : List (String × α) :=
  fields.foldl (fun sorted f => insertSorted f.1 f.2 sorted) []

namespace Source

mutual

/-- The value of a document that nests at most so many levels of lists and objects. -/
def value? (levels : Nat) : Source → Option Json
  | .null => some .null
  | .bool b => some (.bool b)
  | .number n => n.map .number
  | .text s => s.map .text
  | .list items =>
    match levels with
    | 0 => none
    | n + 1 => (values? n items).map .list
  | .object fields =>
    match levels with
    | 0 => none
    | n + 1 => (fieldValues? n fields).map fun fs => .object (sortFields fs)

def values? (levels : Nat) : List Source → Option (List Json)
  | [] => some []
  | s :: rest =>
    match value? levels s, values? levels rest with
    | some v, some vs => some (v :: vs)
    | _, _ => none

def fieldValues? (levels : Nat) : List (Option String × Source) → Option (List (String × Json))
  | [] => some []
  | (name, s) :: rest =>
    match name, value? levels s, fieldValues? levels rest with
    | some n, some v, some vs => some ((n, v) :: vs)
    | _, _, _ => none

end

/-- The levels of lists and objects that a kept document may nest. -/
def greatestDepth : Nat := 127

def toJson? (s : Source) : Option Json := s.value? greatestDepth

mutual

def ofJson : Json → Source
  | .null => .null
  | .bool b => .bool b
  | .number n => .number (some n)
  | .text s => .text (some s)
  | .list items => .list (ofJsons items)
  | .object fields => .object (ofFields fields)

def ofJsons : List Json → List Source
  | [] => []
  | v :: rest => ofJson v :: ofJsons rest

def ofFields : List (String × Json) → List (Option String × Source)
  | [] => []
  | (n, v) :: rest => (some n, ofJson v) :: ofFields rest

end

end Source

end Json

end InletRegistry
