import InletRegistry.Document
import InletRegistry.Json.Basic

/-!
# Records in JSON

A record is an object whose field names are known: the others are skipped, and a known name may not
be repeated. A record may also be written as a list of its fields in their order, from which fields
at the end may be missing if they have a default, and which has nothing beyond the last field. In
both forms `null` stands for an optional field that is absent.

`fields?` brings both forms to one list with a place for every known field.
-/

namespace InletRegistry.Json

namespace Source

/-- The field of a name, which must be the only one. -/
def only? (name : String) : List (Option String × Source) → Option (Option Source)
  | [] => some none
  | (n, s) :: rest =>
    if n = some name then
      if rest.any (·.1 = some name) then none else some (some s)
    else only? name rest

/-- The fields of a record by their names; `needed` says how many of them a list must give. -/
def fields? (names : List String) (needed : Nat) : Source → Option (List (Option Source))
  | .object fields =>
    if fields.all (·.1.isSome) then names.mapM fun n => only? n fields else none
  | .list items =>
    if needed ≤ items.length ∧ items.length ≤ names.length then
      some (items.map some ++ List.replicate (names.length - items.length) none)
    else none
  | _ => none

def toText? : Source → Option String
  | .text s => s
  | _ => none

def toBool? : Source → Option Bool
  | .bool b => some b
  | _ => none

/-- A natural number up to a limit, written without fraction and exponent. -/
def toNatural? (limit : Nat) : Source → Option Nat
  | .number (some (.natural n)) => if n ≤ limit then some n else none
  | _ => none

def items? : Source → Option (List Source)
  | .list items => some items
  | _ => none

/-- One of some named values, written as its name or as an object that gives the name `null`. -/
def toChoice? {α : Type} (choices : List (String × α)) : Source → Option α
  | .text (some s) => choices.lookup s
  | .object [(some s, .null)] => choices.lookup s
  | _ => none

end Source

/-- JSON documents, in which everything is written as what it is. -/
instance : Document Source where
  isAbsent s := match s with
    | .null => true
    | _ => false
  toText? := Source.toText?
  toBool? := Source.toBool?
  toNatural? := Source.toNatural?
  items? := Source.items?
  toChoice? := Source.toChoice?
  fields? := Source.fields?

end InletRegistry.Json
