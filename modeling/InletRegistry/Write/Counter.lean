import InletRegistry.Access.Grant
import InletRegistry.Write.Pipeline

/-!
# Changes of a single counter

The smallest store on which changes can be run: one version, which every successful change puts up
by one. Each step of a run is prescribed, so that every way through the steps can be taken, and the
counter remembers which steps were taken and how many locks there were while it was changed.
-/

namespace InletRegistry.Write

open InletRegistry.Time InletRegistry.Access

/-- A step of a run, as the counter remembers it. -/
inductive StepName where
  | authorize
  | resolve
  | verify
  | currentVersion
  | execute
  deriving DecidableEq, Repr

/-- How the caller of a run is authorized. -/
inductive Admission where
  | free
  | closed (f : Failure)
  /-- By grants on the resource `/store/{id}`, which may be missing. -/
  | byGrants (policy : Policy) (principal : String) (action : Action) (isMissing : Bool)

/-- A prescribed run. -/
structure Prescription where
  revision : Revision
  admission : Admission
  verifyFailure : Option Failure
  versionFailure : Option Failure
  executeFailure : Option Failure

/-- The counter and what it remembers. -/
structure Counter where
  version : Nat
  /-- The steps taken, latest first. -/
  steps : List StepName
  /-- The number of locks at each change, latest first. -/
  locksSeen : List Nat

namespace Counter

def note (c : Counter) (step : StepName) : Counter := { c with steps := step :: c.steps }

/-- A success, unless a failure is prescribed. -/
def succeedUnless (failure : Option Failure) : Except Failure Unit :=
  match failure with
  | some f => .error f
  | none => .ok ()

def stepsOf (p : Prescription) (table : LockTable) : Steps Counter Nat where
  authorize c :=
    let c := c.note .authorize
    match p.admission with
    | .free => (.ok (), c)
    | .closed f => (.error f, c)
    | .byGrants policy principal action isMissing =>
      let id := p.revision.resourceId
      (if isMissing then .error (.notFound id)
        else policy.authorize principal ("/store/" ++ id) action, c.note .resolve)
  verify c := (succeedUnless p.verifyFailure, c.note .verify)
  currentVersion c :=
    (match p.versionFailure with
      | some f => .error f
      | none => .ok c.version, c.note .currentVersion)
  execute c :=
    let c := { c.note .execute with locksSeen := table.size :: c.locksSeen }
    match p.executeFailure with
    | some f => (.error f, c)
    | none => (.ok (c.version + 1), { c with version := c.version + 1 })

/-- Runs what is prescribed while nobody else acts. -/
def run (p : Prescription) (patience : Duration) (now : Nat) (table : LockTable) (c : Counter) :
    Except Failure Nat × LockTable × Counter :=
  runAlone (stepsOf p) p.revision patience now table { c with steps := [], locksSeen := [] }

end Counter

end InletRegistry.Write
