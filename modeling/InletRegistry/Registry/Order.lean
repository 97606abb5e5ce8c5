import InletRegistry.Audit
import InletRegistry.Inlet.Store
import InletRegistry.Text.Uuid
import InletRegistry.Write.Pipeline

/-!
# Orders

An order is a change that a caller wants of one inlet, under a claim about its version. It is
carried out on a ledger: the store, the audit trail, and the number of the next generated
identifier. Every order that is carried out leaves one entry in the trail, and so does every order,
and every read, that is denied; nothing else does.
-/

namespace InletRegistry.Registry

open InletRegistry.Access InletRegistry.Text

/-- What an order does to an inlet. -/
inductive Change where
  | update (proposal : Proposal)
  | delete
  deriving DecidableEq, Repr

/-- A change that a caller wants of an inlet. -/
structure Order where
  caller : String
  revision : Revision
  change : Change
  deriving DecidableEq, Repr

/-- What orders are carried out on. -/
structure Ledger where
  store : Store
  /-- The audit trail, in order. -/
  trail : List Audit.Entry
  /-- The number of the next generated identifier. It stands for a source of random identifiers, of which
  it is assumed that it gives none twice. -/
  fresh : Nat
  deriving DecidableEq, Repr

namespace Ledger

/-- Puts an entry at the end of the trail. -/
def record (l : Ledger) (caller : String) (event : Audit.Event) : Ledger :=
  { l with trail := l.trail ++ [⟨caller, event⟩] }

/-- Lets a caller through to an action on an inlet; a denial is recorded. -/
def authorize (l : Ledger) (policy : Policy) (caller id : String) (action : Action) :
    Except Failure Unit × Ledger :=
  match l.store.authorize policy caller id action with
  | .error (.authorizationDenied reason) =>
    (.error (.authorizationDenied reason), l.record caller (.authorizationDenied id reason))
  | result => (result, l)

/-- Shows an inlet to a caller. -/
def get (l : Ledger) (policy : Policy) (caller id : String) :
    Except Failure (Versioned Inlet) × Ledger :=
  match l.authorize policy caller id .read with
  | (.error f, l) => (.error f, l)
  | (.ok (), l) => (l.store.get id, l)

end Ledger

namespace Order

/-- The inlet of an order. -/
def id (o : Order) : String := o.revision.resourceId

/-- Whether the present state of the inlet allows the change. -/
def verify (o : Order) (s : Store) : Except Failure Unit :=
  match o.change with
  | .update p => s.verifyUpdate p
  | .delete => s.verifyDelete o.id

/-- Changes the store. -/
def execute (o : Order) (fresh : String) (s : Store) : Except Failure (Versioned Inlet) × Store :=
  match o.change with
  | .update p => s.update fresh o.revision p
  | .delete => s.delete fresh o.revision o.id

/-- The steps of an order. -/
def steps (policy : Policy) (o : Order) : Write.Steps Ledger (Versioned Inlet) where
  authorize l := l.authorize policy o.caller o.id .write
  verify l := (o.verify l.store, l)
  currentVersion l := (l.store.currentVersion o.id, l)
  execute l :=
    let (result, store) := o.execute (Uuid.ofNat l.fresh) l.store
    (result, { l with store, fresh := l.fresh + 1 })

/-- What the trail says of an order that was carried out. -/
def event (kind : String) (o : Order) (result : Versioned Inlet) : Audit.Event :=
  match o.change with
  | .update _ => .resourceUpdated kind o.id result.revision.version
  | .delete => .resourceDeleted kind o.id o.revision.isUnconditional

/-- Carries an order out and records it. -/
def carryOut (kind : String) (policy : Policy) (o : Order) (l : Ledger) :
    Except Failure (Versioned Inlet) × Ledger :=
  match (o.steps policy).run o.revision l with
  | (.error f, l) => (.error f, l)
  | (.ok v, l) => (.ok v, l.record o.caller (o.event kind v))

end Order

end InletRegistry.Registry
