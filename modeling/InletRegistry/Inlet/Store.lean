import InletRegistry.Access.Grant
import InletRegistry.Inlet.Entity
import InletRegistry.Text.Blank

/-!
# The store of inlets

Inlets with their versions, each under its id. An update or a removal looks at the claimed version
once more before it takes effect, and an update puts the version up by one. Versions are numbers of 64
bits, so what is given for a change at the greatest one stands for nothing.

The rules of an inlet's life are in `verifyUpdate` and `verifyDelete`: the name is never blank, at
least one task may work, what runs keeps its configuration and is not removed, and what is disabled
is not started.
-/

namespace InletRegistry

open InletRegistry.Text InletRegistry.Access

/-- A stored inlet. -/
structure Stored where
  inlet : Inlet
  version : Nat
  deriving DecidableEq, Repr

/-- Inlets by their ids. -/
structure Store where
  /-- The stored inlets with the ids under which they are found, each id once. -/
  entries : List (String × Stored)
  deriving DecidableEq, Repr

namespace Store

def empty : Store := ⟨[]⟩

def find? (s : Store) (id : String) : Option Stored := s.entries.lookup id

def size (s : Store) : Nat := s.entries.length

/-- Puts an entry in place of the one that an id has, or behind all others. -/
def put (id : String) (e : Stored) : List (String × Stored) → List (String × Stored)
  | [] => [(id, e)]
  | (i, f) :: rest => if i = id then (id, e) :: rest else (i, f) :: put id e rest

/-- Stores an inlet at a version, in place of one with the same id. -/
def insert (s : Store) (inlet : Inlet) (version : Nat) : Store :=
  ⟨put inlet.id ⟨inlet, version⟩ s.entries⟩

def erase (s : Store) (id : String) : Store := ⟨s.entries.filter fun e => e.1 ≠ id⟩

def missing (id : String) : Failure :=
  .notFound ("unable to find input port with id '" ++ id ++ "'")

/-- What is stored under an id, or that nothing is. -/
def lookup (s : Store) (id : String) : Except Failure Stored :=
  match s.find? id with
  | some e => .ok e
  | none => .error (missing id)

/-- The name by which grants know the inlet of an id. -/
def resourceName (id : String) : String := "/" ++ collection ++ "/" ++ id

/-- The resource of an id, if there is one. -/
def resolve (s : Store) (id : String) : Except Failure String :=
  match s.lookup id with
  | .ok _ => .ok (resourceName id)
  | .error f => .error f

/-- Lets a principal through to an action on the inlet of an id. -/
def authorize (s : Store) (policy : Policy) (principal id : String) (action : Action) :
    Except Failure Unit :=
  match s.resolve id with
  | .ok resource => policy.authorize principal resource action
  | .error f => .error f

def currentVersion (s : Store) (id : String) : Except Failure Nat :=
  match s.lookup id with
  | .ok e => .ok e.version
  | .error f => .error f

def get (s : Store) (id : String) : Except Failure (Versioned Inlet) :=
  match s.lookup id with
  | .ok e => .ok ⟨e.inlet, ⟨some e.version, "", id⟩⟩
  | .error f => .error f

/-- Why an inlet may not become what is proposed. -/
inductive RuleBreach where
  | blankName
  | noTasks
  /-- The inlet runs and the proposal changes its configuration. -/
  | running (id : String)
  /-- The inlet is disabled and the proposal would start it. -/
  | disabled (id : String)
  | runningOnDelete (id : String)
  deriving DecidableEq, Repr

def RuleBreach.message : RuleBreach → String
  | blankName => "port name must not be blank"
  | noTasks => "concurrent tasks must be at least 1"
  | running id => id ++ " is running; stop it before changing its configuration"
  | disabled id => id ++ " is disabled and cannot be started"
  | runningOnDelete id => id ++ " is running and cannot be deleted"

def RuleBreach.toFailure (b : RuleBreach) : Failure := .preconditionFailed b.message

/-- The first rule that a proposal breaks for an inlet. -/
def breach? (p : Proposal) (inlet : Inlet) (id : String) : Option RuleBreach :=
  if p.name.any isBlankText then some .blankName
  else if p.concurrentTasks = some 0 then some .noTasks
  else if inlet.state = .running ∧ p.changesConfiguration inlet then some (.running id)
  else if inlet.state = .disabled ∧ p.state = some .running then some (.disabled id)
  else none

/-- Whether the inlet that a proposal names may become what is proposed. -/
def verifyUpdate (s : Store) (p : Proposal) : Except Failure Unit :=
  let id := p.id.getD ""
  match s.lookup id with
  | .error f => .error f
  | .ok e =>
    match breach? p e.inlet id with
    | some b => .error b.toFailure
    | none => .ok ()

def verifyDelete (s : Store) (id : String) : Except Failure Unit :=
  match s.lookup id with
  | .error f => .error f
  | .ok e =>
    if e.inlet.state = .running then .error (RuleBreach.runningOnDelete id).toFailure else .ok ()

def outdated (r : Revision) (current : Nat) : Failure :=
  .conflict (r.text ++ " is not the most up-to-date revision; current version is " ++
    Decimal.text current)

/-- What is stored for a claim's resource, if the claim holds there. -/
def claimed (s : Store) (r : Revision) (id : String) : Except Failure Stored :=
  match s.lookup id with
  | .error f => .error f
  | .ok e => if r.holdsAt e.version then .ok e else .error (outdated r e.version)

/-- Carries out a proposal on the resource of a claim. -/
def update (s : Store) (fresh : String) (r : Revision) (p : Proposal) :
    Except Failure (Versioned Inlet) × Store :=
  match s.claimed r r.resourceId with
  | .error f => (.error f, s)
  | .ok e =>
    let inlet := p.applyTo e.inlet
    (.ok ⟨inlet, r.next fresh e.version⟩,
      ⟨put r.resourceId ⟨inlet, e.version + 1⟩ s.entries⟩)

/-- Removes the inlet of an id and gives its last state. -/
def delete (s : Store) (fresh : String) (r : Revision) (id : String) :
    Except Failure (Versioned Inlet) × Store :=
  match s.claimed r id with
  | .error f => (.error f, s)
  | .ok e => (.ok ⟨e.inlet, r.next fresh e.version⟩, s.erase id)

end Store

end InletRegistry
