import InletRegistry.Text.Digits

/-!
# Inlets

An inlet is where data comes into a flow: it has a name, a comment, a run state and a number of
tasks that may work at the same time. A proposal says what an inlet should become; what it leaves
out stays as it is.

`changesConfiguration` tells whether a proposal touches more than the run state, and `applyTo`
carries it out.
-/

namespace InletRegistry

/-- Whether an inlet is at work. -/
inductive RunState where
  | running
  /-- It rests and may be started. -/
  | stopped
  /-- It rests and may not be started. -/
  | disabled
  deriving DecidableEq, Repr

namespace RunState

def names : List (String × RunState) :=
  [("running", .running), ("stopped", .stopped), ("disabled", .disabled)]

def name : RunState → String
  | running => "running"
  | stopped => "stopped"
  | disabled => "disabled"

end RunState

/-- An inlet as it is stored. -/
structure Inlet where
  id : String
  name : String
  comments : String
  state : RunState
  /-- How many of its tasks may work at the same time. -/
  concurrentTasks : UInt32
  deriving DecidableEq, Repr

/-- What an inlet should become; absent fields stay as they are. -/
structure Proposal where
  id : Option String
  name : Option String
  comments : Option String
  state : Option RunState
  /-- How many of its tasks may work at the same time. -/
  concurrentTasks : Option UInt32
  deriving DecidableEq, Repr

namespace Proposal

/-- Whether a proposed value is there and differs from the present one. -/
def differs {α : Type} [DecidableEq α] (proposed : Option α) (present : α) : Bool :=
  match proposed with
  | none => false
  | some v => v ≠ present

/-- Whether carrying the proposal out would change anything besides the run state. -/
def changesConfiguration (p : Proposal) (inlet : Inlet) : Bool :=
  differs p.name inlet.name || differs p.comments inlet.comments ||
    differs p.concurrentTasks inlet.concurrentTasks

/-- The inlet that carrying the proposal out leaves. -/
def applyTo (p : Proposal) (inlet : Inlet) : Inlet :=
  { inlet with
    name := p.name.getD inlet.name
    comments := p.comments.getD inlet.comments
    state := p.state.getD inlet.state
    concurrentTasks := p.concurrentTasks.getD inlet.concurrentTasks }

/-- Carrying out a proposal never makes another inlet of it. -/
@[simp] theorem applyTo_id (p : Proposal) (inlet : Inlet) : (p.applyTo inlet).id = inlet.id := rfl

/-- Nothing differs from a present value exactly when filling in leaves it. -/
theorem differs_iff {α : Type} [DecidableEq α] (proposed : Option α) (present : α) :
    differs proposed present = true ↔ proposed.getD present ≠ present := by
  cases proposed <;> simp [differs]

end Proposal

end InletRegistry
