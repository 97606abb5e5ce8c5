import InletRegistry.Json.Record
import InletRegistry.Text.Digits

/-!
# Revisions

A revision is a client's claim about one resource: the version that the client last saw, if it
claims one, and who the client is. A claim without a version holds at every version. A successful
change at a version mints the revision of the next one.
-/

namespace InletRegistry

open InletRegistry.Text

/-- A claim about the version of a resource. -/
structure Revision where
  version : Option Nat
  /-- Who the client is; empty if it did not say. -/
  clientId : String
  resourceId : String
  deriving DecidableEq, Repr

/-- A state together with the revision at which it was seen. -/
structure Versioned (α : Type) where
  state : α
  revision : Revision
  deriving DecidableEq, Repr

/-- What an entity says of a revision; the resource is the one that the entity is about. -/
structure RevisionTag where
  version : Option Nat
  clientId : Option String
  deriving DecidableEq, Repr

namespace RevisionTag

def ofFields? : List (Option Json.Source) → Option RevisionTag
  | [version, clientId] =>
    match Document.optional (Json.Source.toNatural? Decimal.word64) version,
        Document.optional Json.Source.toText? clientId with
    | some v, some c => some ⟨v, c⟩
    | _, _ => none
  | _ => none

def ofSource? (s : Json.Source) : Option RevisionTag :=
  (s.fields? ["version", "clientId"] 0).bind ofFields?

/-- A tag as a value; absent fields are left out. -/
def toJson (t : RevisionTag) : Json :=
  .object ((t.version.map fun v => ("version", Json.natural v)).toList ++
    (t.clientId.map fun c => ("clientId", Json.text c)).toList)

end RevisionTag

namespace Revision

def ofTag (t : RevisionTag) (resourceId : String) : Revision :=
  ⟨t.version, t.clientId.getD "", resourceId⟩

/-- The claim as an entity says it: a client that did not say who it is stays out. -/
def toTag (r : Revision) : RevisionTag :=
  ⟨r.version, if r.clientId = "" then none else some r.clientId⟩

def isUnconditional (r : Revision) : Bool := r.version.isNone

def holdsAt (r : Revision) (current : Nat) : Bool :=
  match r.version with
  | none => true
  | some v => v = current

/-- The revision after a change at a version, for which a client that did not say who it is gets
the fresh identifier. Versions are numbers of 64 bits: at the greatest one there is no next revision,
and what is given for it stands for none. -/
def next (r : Revision) (fresh : String) (current : Nat) : Revision :=
  ⟨some (current + 1), if r.clientId = "" then fresh else r.clientId, r.resourceId⟩

/-- A claim in words: the resource and the version, or a star for none. -/
def text (r : Revision) : String :=
  r.resourceId ++ "@" ++ match r.version with
    | some v => Decimal.text v
    | none => "*"

/-- A claim without a version holds everywhere. -/
theorem holdsAt_of_isUnconditional {r : Revision} (h : r.isUnconditional = true) (n : Nat) :
    r.holdsAt n = true := by
  unfold isUnconditional at h
  unfold holdsAt
  cases hv : r.version with
  | none => rfl
  | some v => simp [hv] at h

/-- A claim of a version holds there alone. -/
theorem holdsAt_iff_of_version {r : Revision} {v : Nat} (h : r.version = some v) (n : Nat) :
    r.holdsAt n = true ↔ v = n := by
  simp [holdsAt, h]

end Revision

end InletRegistry
