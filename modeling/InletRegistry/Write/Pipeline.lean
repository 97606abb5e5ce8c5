import InletRegistry.Locks.Basic
import InletRegistry.Revision

/-!
# The checks of a change

A change passes four steps while the lock of its resource is held: the caller is authorized, the
change is verified against the present state, the claimed version is compared with the stored one
if a version is claimed, and then the change is executed. The first step that fails ends it, and
only the last one may change the resource.

Each step is a function on a state of any type, so a state can count or record the steps taken. `run`
takes them all at once; `advance` takes the one that is due, for a change that shares its state with
others which go on between its steps.

A change is run by a coordinator that holds the locks: it acquires the lock of the resource, takes the
steps of the change and releases the lock, whatever came of the steps. `runLocked` is the part after the
lock is held; `runAlone` is a whole run on the registry's clock when no other change goes on, in which the
lock is either granted at once or not before its deadline.
-/

namespace InletRegistry.Write

open InletRegistry.Time

/-- The steps of a change. -/
structure Steps (σ α : Type) where
  authorize : σ → Except Failure Unit × σ
  verify : σ → Except Failure Unit × σ
  currentVersion : σ → Except Failure Nat × σ
  execute : σ → Except Failure α × σ

/-- A failed verification as the client sees it: whatever it is, unless it is that there is no such
resource, it is a precondition that does not hold. -/
def asPrecondition : Failure → Failure
  | .preconditionFailed text => .preconditionFailed text
  | .notFound text => .notFound text
  | other => .preconditionFailed other.message

/-- Compares the claimed version, if one is claimed, with the stored one. -/
def Steps.checkRevision {σ α : Type} (steps : Steps σ α) (r : Revision) (s : σ) :
    Except Failure Unit × σ :=
  match r.version with
  | none => (.ok (), s)
  | some expected =>
    match steps.currentVersion s with
    | (.error f, s) => (.error f, s)
    | (.ok current, s) =>
      if expected = current then (.ok (), s)
      else (.error (.staleRevision r.resourceId expected current), s)

/-- Takes the steps of a change one after another. -/
def Steps.run {σ α : Type} (steps : Steps σ α) (r : Revision) (s : σ) : Except Failure α × σ :=
  match steps.authorize s with
  | (.error f, s) => (.error f, s)
  | (.ok (), s) =>
    match steps.verify s with
    | (.error f, s) => (.error (asPrecondition f), s)
    | (.ok (), s) =>
      match steps.checkRevision r s with
      | (.error f, s) => (.error f, s)
      | (.ok (), s) => steps.execute s

/-! ## One step at a time -/

/-- The step of a change that is due. -/
inductive Phase where
  | authorizing
  | verifying
  | checking
  | executing
  deriving DecidableEq, Repr

/-- How far a change has come. -/
inductive Progress (α : Type) where
  | due (phase : Phase)
  | ended (result : Except Failure α)
  deriving DecidableEq, Repr

/-- Takes the step that is due. -/
def Steps.advance {σ α : Type} (steps : Steps σ α) (r : Revision) (s : σ) :
    Phase → Progress α × σ
  | .authorizing =>
    match steps.authorize s with
    | (.error f, s) => (.ended (.error f), s)
    | (.ok (), s) => (.due .verifying, s)
  | .verifying =>
    match steps.verify s with
    | (.error f, s) => (.ended (.error (asPrecondition f)), s)
    | (.ok (), s) => (.due .checking, s)
  | .checking =>
    match steps.checkRevision r s with
    | (.error f, s) => (.ended (.error f), s)
    | (.ok (), s) => (.due .executing, s)
  | .executing =>
    let (result, s) := steps.execute s
    (.ended result, s)

/-! ## Under a lock -/

/-- Takes the steps of a change whose ticket holds the lock, then lets go of the lock. The steps see
the locks as they are meanwhile. -/
def runLocked {σ α : Type} (steps : LockTable → Steps σ α) (r : Revision) (ticket : Nat)
    (table : LockTable) (s : σ) : Except Failure α × LockTable × σ :=
  let (result, s) := (steps table).run r s
  (result, table.release ticket, s)

/-- Runs a change while nobody else acts; without the lock nothing is done. -/
def runAlone {σ α : Type} (steps : LockTable → Steps σ α) (r : Revision) (patience : Duration)
    (now : Nat) (table : LockTable) (s : σ) : Except Failure α × LockTable × σ :=
  let (ticket, table) := table.acquire now r.resourceId patience
  if table.holds ticket then runLocked steps r ticket table s
  else (.error (LockTable.busy r.resourceId patience), table.expire ticket, s)

end InletRegistry.Write
