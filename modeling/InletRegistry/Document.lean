/-!
# Documents

What records are read from. A kind of document says how its parts are taken: whether a number may be
written as a text, say, is for the kind to decide. A record is read by the names of its fields;
`fields?` gives a place for every name, and `required`, `defaulted` and `optional` read one place.
-/

namespace InletRegistry

/-- A kind of document. -/
class Document (σ : Type) where
  /-- Whether a document stands for something absent. -/
  isAbsent : σ → Bool
  toText? : σ → Option String
  toBool? : σ → Option Bool
  toNatural? (limit : Nat) : σ → Option Nat
  items? : σ → Option (List σ)
  /-- One of some named values. -/
  toChoice? {α : Type} (choices : List (String × α)) : σ → Option α
  /-- The fields of a record by their names; `needed` says how many of them, from the first on, may
  not be left out where the record is written as a list. -/
  fields? (names : List String) (needed : Nat) : σ → Option (List (Option σ))

namespace Document

variable {σ α : Type}

def required (read : σ → Option α) : Option σ → Option α
  | some s => read s
  | none => none

/-- A field that has a value of its own when it is not given. -/
def defaulted (value : α) (read : σ → Option α) : Option σ → Option α
  | some s => read s
  | none => some value

def optional [Document σ] (read : σ → Option α) : Option σ → Option (Option α)
  | none => some none
  | some s => if isAbsent s then some none else (read s).map some

def toList? [Document σ] (item : σ → Option α) (s : σ) : Option (List α) :=
  (items? s).bind fun items => items.mapM item

end Document

end InletRegistry
