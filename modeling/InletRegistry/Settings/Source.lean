import InletRegistry.Json.Reader
import InletRegistry.Settings.Place
import InletRegistry.Text.Pieces
import InletRegistry.Toml.Reader

/-!
# Where settings come from

A file in TOML or JSON, told by the ending of its name, and the environment. The names in the
environment that count begin with `FLOWCOORD__` in any letter case; two underscores in what follows
lead into a table, and every value is a text.
-/

namespace InletRegistry.Settings

open InletRegistry.Text

/-! ## Files -/

mutual

/-- A JSON value as a setting; a number that no integer of 64 bits is becomes a floating one. -/
def ofJson : Json → Setting
  | .null => .nothing
  | .bool b => .truth b
  | .number (.natural n) =>
    if n < Nat.pow 2 63 then .integer n else .floating false (Json.Binary64.ofNat n)
  | .number (.negative n) => .integer (-n)
  | .number (.floating isNegative bits) => .floating isNegative bits
  | .text s => .text s
  | .list items => .list (ofJsons items)
  | .object fields => .table (ofFields fields)

def ofJsons : List Json → List Setting
  | [] => []
  | j :: rest => ofJson j :: ofJsons rest

def ofFields : List (String × Json) → List (String × Setting)
  | [] => []
  | (n, j) :: rest => (n, ofJson j) :: ofFields rest

end

/-- A format of files. -/
inductive Format where
  | toml
  | json
  deriving DecidableEq, Repr

/-- What stands after the last point in the last name of a path; a point in front does not count. -/
def extension? (path : List Char) : Option (List Char) :=
  let name := path.reverse.takeWhile (· ≠ '/')
  let after := name.takeWhile (· ≠ '.')
  if after.length + 1 < name.length then some after.reverse else none

def Format.ofPath? (path : String) : Option Format :=
  match extension? path.toList with
  | some ['t', 'o', 'm', 'l'] => some .toml
  | some ['j', 's', 'o', 'n'] => some .json
  | _ => none

/-- The characters of a file, without a mark of the byte order at the start. -/
def characters (octets : List UInt8) : List Char :=
  Utf8.lenient (match octets with
    | 0xEF :: 0xBB :: 0xBF :: rest => rest
    | _ => octets)

def ofFile? (path : String) (octets : List UInt8) : Option (List (String × Setting)) :=
  let cs := characters octets
  match Format.ofPath? path with
  | some .toml => Toml.read? cs
  | some .json =>
    match (Json.Source.ofSymbols? (cs.map some)).bind Json.Source.toJson? with
    | some (.object fields) => some (ofFields fields)
    | _ => none
  | none => none

/-! ## The environment -/

/-- What the names that count begin with, in lower case. -/
def nameStart : List Char := "flowcoord__".toList

/-- A name with a point in place of every two underscores. -/
def pointed : List Char → List Char
  | '_' :: '_' :: rest => '.' :: pointed rest
  | c :: rest => c :: pointed rest
  | [] => []

/-- The key of a name, if the name counts. -/
def keyOf? (name : String) : Option String :=
  (after? nameStart (name.toList.map Setting.lower)).map fun rest =>
    String.ofList (pointed rest)

def ofEnvironment (environment : List (String × String)) : List (String × Setting) :=
  environment.filterMap fun (name, value) =>
    (keyOf? name).map fun key => (key, .text value)

end InletRegistry.Settings
