import InletRegistry.Cluster.Membership
import InletRegistry.Routing.Hop

/-!
# Here or at the coordinator

A node carries a request out itself unless it is a follower. A follower sends the request to the
coordinator, if it knows where that is and if no other follower has sent the request to it. The
decision hangs on the role at this moment and on nothing else.

What carries a request out, and what sends it on, are functions on a state of any type, so that a
state can record what was done.
-/

namespace InletRegistry.Routing

open InletRegistry.Http InletRegistry.Cluster

/-- Sends a request to the coordinator at an address and waits for the response. -/
abbrev Transport (σ : Type) := String → Request → σ → Except Failure Response × σ

/-- Why a follower does not send a request on. -/
inductive Obstacle where
  /-- Another follower has sent the request to this one. -/
  | alreadyForwarded
  /-- It is not known where the coordinator is. -/
  | unknownCoordinator
  deriving DecidableEq, Repr

def Obstacle.toFailure : Obstacle → Failure
  | alreadyForwarded => .noCoordinator "request was already forwarded by another follower"
  | unknownCoordinator => .noCoordinator "coordinator address unknown"

/-- Where to send a request, or why not to send it. -/
def destination (m : Membership) (r : Request) : Except Obstacle String :=
  if isForwarded r then .error .alreadyForwarded
  else match m.coordinatorUrl with
    | some url => .ok url
    | none => .error .unknownCoordinator

def forward {σ : Type} (transport : Transport σ) (m : Membership) (r : Request) (s : σ) :
    Except Failure Response × σ :=
  match destination m r with
  | .error o => (.error o.toFailure, s)
  | .ok url => transport url r s

/-- What became of a request. -/
inductive Reply (α : Type) where
  | here (value : α)
  /-- It was sent on, or should have been. -/
  | sentOn (answer : Except Failure Response)

/-- Carries a request out here, or sends it on. -/
def dispatch {σ α : Type} (transport : Transport σ) (carryOut : σ → α × σ) (m : Membership)
    (r : Request) (s : σ) : Reply α × σ :=
  if m.mustForward then
    let (answer, s) := forward transport m r s
    (.sentOn answer, s)
  else
    let (value, s) := carryOut s
    (.here value, s)

end InletRegistry.Routing
