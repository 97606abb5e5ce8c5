import InletRegistry.Inlet.Basic
import InletRegistry.Json.Printer
import InletRegistry.Json.Reader
import InletRegistry.Json.Record
import InletRegistry.Revision
import InletRegistry.Text.Percent
import InletRegistry.Text.Pieces

/-!
# Entities

An entity is what clients and the registry exchange about an inlet: the revision, the id, the URI
and the inlet itself as the component. In a request the component is a proposal; it is kept as the
JSON value that it was and read only afterwards.
-/

namespace InletRegistry

open InletRegistry.Text

def collection : String := "input-ports"

def encodeId (id : String) : String := String.ofList (Percent.encode Percent.idSafe id.toList)

/-- The URI of a resource: the base without slashes at its end, the collection and the id. -/
def resourceUri (base collection id : String) : String :=
  dropFinalSlashes base ++ "/" ++ collection ++ "/" ++ encodeId id

namespace Inlet

def fieldNames : List String := ["id", "name", "comments", "state", "concurrentTasks"]

def tasks? (s : Json.Source) : Option UInt32 := (s.toNatural? Decimal.word32).map UInt32.ofNat

def runState? : Json.Source → Option RunState := Json.Source.toChoice? RunState.names

def ofSource? (s : Json.Source) : Option Inlet :=
  match s.fields? fieldNames 5 with
  | some [id, name, comments, state, tasks] =>
    match Document.required Json.Source.toText? id, Document.required Json.Source.toText? name,
        Document.required Json.Source.toText? comments, Document.required runState? state,
        Document.required tasks? tasks with
    | some i, some n, some c, some s, some t => some ⟨i, n, c, s, t⟩
    | _, _, _, _, _ => none
  | _ => none

def toJson (i : Inlet) : Json :=
  .object [("id", .text i.id), ("name", .text i.name), ("comments", .text i.comments),
    ("state", .text i.state.name), ("concurrentTasks", .natural i.concurrentTasks.toNat)]

/-- An inlet as a kept value, its fields in the order of their names. -/
def toComponent (i : Inlet) : Json :=
  .object [("comments", .text i.comments), ("concurrentTasks", .natural i.concurrentTasks.toNat),
    ("id", .text i.id), ("name", .text i.name), ("state", .text i.state.name)]

end Inlet

namespace Proposal

def ofSource? (s : Json.Source) : Option Proposal :=
  match s.fields? Inlet.fieldNames 0 with
  | some [id, name, comments, state, tasks] =>
    match Document.optional Json.Source.toText? id, Document.optional Json.Source.toText? name,
        Document.optional Json.Source.toText? comments, Document.optional Inlet.runState? state,
        Document.optional Inlet.tasks? tasks with
    | some i, some n, some c, some s, some t => some ⟨i, n, c, s, t⟩
    | _, _, _, _, _ => none
  | _ => none

/-- A proposal as a value; absent fields are left out, apart from the id. -/
def toJson (p : Proposal) : Json :=
  .object (("id", Json.ofText? p.id) ::
    ((p.name.map fun v => ("name", Json.text v)).toList ++
      (p.comments.map fun v => ("comments", Json.text v)).toList ++
      (p.state.map fun v => ("state", Json.text v.name)).toList ++
      (p.concurrentTasks.map fun v => ("concurrentTasks", Json.natural v.toNat)).toList))

end Proposal

/-- What clients and the registry exchange about an inlet. -/
structure Entity where
  revision : Option RevisionTag
  id : Option String
  uri : Option String
  /-- The inlet, or a proposal for it, as it was written. -/
  component : Option Json
  deriving Repr

/-- What an update asks for. -/
structure UpdateRequest where
  revision : Option RevisionTag
  component : Option Proposal
  deriving DecidableEq, Repr

namespace Entity

def fieldNames : List String := ["revision", "id", "uri", "component"]

/-- The levels that a component may nest inside an entity. -/
def componentDepth : Nat := Json.Source.greatestDepth - 1

def ofSource? (s : Json.Source) : Option Entity :=
  match s.fields? fieldNames 0 with
  | some [revision, id, uri, component] =>
    match Document.optional RevisionTag.ofSource? revision,
        Document.optional Json.Source.toText? id,
        Document.optional Json.Source.toText? uri,
        Document.optional (fun c => c.value? componentDepth) component with
    | some r, some i, some u, some c => some ⟨r, i, u, c⟩
    | _, _, _, _ => none
  | _ => none

/-- An entity as a value; absent fields are left out. -/
def toJson (e : Entity) : Json :=
  .object ((e.revision.map fun r => ("revision", r.toJson)).toList ++
    (e.id.map fun v => ("id", Json.text v)).toList ++
    (e.uri.map fun v => ("uri", Json.text v)).toList ++
    (e.component.map fun c => ("component", c)).toList)

def ofVersioned (base : String) (v : Versioned Inlet) : Entity :=
  ⟨some v.revision.toTag, some v.state.id, some (resourceUri base collection v.state.id),
    some v.state.toComponent⟩

/-- The entity as an update, if its component is a proposal. -/
def toUpdate? (e : Entity) : Option UpdateRequest :=
  match e.component with
  | none => some ⟨e.revision, none⟩
  | some c => (Proposal.ofSource? (Json.Source.ofJson c)).map fun p => ⟨e.revision, some p⟩

end Entity

namespace UpdateRequest

def read? (body : List UInt8) : Option UpdateRequest :=
  ((Json.Source.read? body).bind Entity.ofSource?).bind Entity.toUpdate?

end UpdateRequest

end InletRegistry
