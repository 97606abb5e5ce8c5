import InletRegistry.Course
import InletRegistry.Routing.Dispatch

/-!
# Dispatches side by side

What a node does with any number of requests that are to be dispatched while it may be told its role at
any moment. A dispatch asks three things of the membership, one after another: whether the node is
clustered, whether it is the coordinator, and, where it is neither alone nor that, where the
coordinator is. Each question is answered as things stand when it is asked. Only then is the request
carried out here or sent on, and that is a step of its own.

What is done is noted down (`deeds`): that a request was carried out here, or sent to an address.
-/

namespace InletRegistry.Routing

open InletRegistry.Http InletRegistry.Cluster

variable {σ α : Type}

/-- How far a dispatch has come. -/
inductive Stage (α : Type) where
  | arrived
  /-- The node is clustered; whether it is the coordinator has not been asked. -/
  | clustered
  /-- The request is to be carried out here. -/
  | staying
  /-- It is to be sent on; where to has not been asked. -/
  | leaving
  /-- It is to be sent to an address. -/
  | calling (url : String)
  | done (reply : Reply α)

namespace Stage

def isDone : Stage α → Bool
  | done _ => true
  | _ => false

/-- The most steps that a dispatch may still take. -/
def stepsLeft : Stage α → Nat
  | arrived => 4
  | clustered => 3
  | leaving => 2
  | staying => 1
  | calling _ => 1
  | done _ => 0

end Stage

/-- A request on its way, with what would carry it out here. -/
structure Dispatch (σ α : Type) where
  request : Request
  carryOut : σ → α × σ
  stage : Stage α

/-- What may be done for a request. -/
inductive Deed (σ α : Type) where
  | carriedOut (carryOut : σ → α × σ)
  /-- The coordinator at an address was called. -/
  | called (url : String) (r : Request)

namespace Deed

/-- The address that was called. -/
def url? : Deed σ α → Option String
  | carriedOut _ => none
  | called url _ => some url

/-- What a deed makes of the state. -/
def effect (transport : Transport σ) (s : σ) : Deed σ α → σ
  | carriedOut carryOut => (carryOut s).2
  | called url r => (transport url r s).2

end Deed

/-- Takes the step of a dispatch that is due: the new stage, the state, and what was done. -/
def Dispatch.advance? (transport : Transport σ) (m : Membership) (d : Dispatch σ α) (s : σ) :
    Option (Stage α × σ × List (Deed σ α)) :=
  match d.stage with
  | .arrived => some (if m.isClustered then .clustered else .staying, s, [])
  | .clustered => some (if m.isCoordinator then .staying else .leaving, s, [])
  | .staying =>
    let (value, s) := d.carryOut s
    some (.done (.here value), s, [.carriedOut d.carryOut])
  | .leaving =>
    match destination m d.request with
    | .error o => some (.done (.sentOn (.error o.toFailure)), s, [])
    | .ok url => some (.calling url, s, [])
  | .calling url =>
    let (answer, s) := transport url d.request s
    some (.done (.sentOn answer), s, [.called url d.request])
  | .done _ => none

/-- A node with all that it has been given to dispatch. -/
structure Junction (σ α : Type) where
  membership : Membership
  /-- What requests are carried out on, and sent on over. -/
  state : σ
  dispatches : List (Dispatch σ α)
  /-- What was done for the dispatch of each number, in order. -/
  deeds : List (Nat × Deed σ α)

namespace Junction

/-- What can happen at a node. -/
inductive Event (σ α : Type) where
  | role (call : RoleCall)
  /-- A request is to be dispatched. -/
  | arrive (r : Request) (carryOut : σ → α × σ)
  /-- The dispatch of a number goes on. -/
  | go (n : Nat)

def start (c : ClusterSettings) (s : σ) : Junction σ α := ⟨.ofSettings c, s, [], []⟩

/-- The node after an event, if that is possible. -/
def next? (transport : Transport σ) (t : Junction σ α) : Event σ α → Option (Junction σ α)
  | .role call => some { t with membership := t.membership.heed call }
  | .arrive r carryOut => some { t with dispatches := t.dispatches ++ [⟨r, carryOut, .arrived⟩] }
  | .go n =>
    (t.dispatches[n]?).bind fun d =>
      (d.advance? transport t.membership t.state).map fun (stage, state, deeds) =>
        { t with
          state
          dispatches := t.dispatches.set n { d with stage }
          deeds := t.deeds ++ deeds.map (n, ·) }

/-- The node after a course of events. -/
abbrev run? (transport : Transport σ) (t : Junction σ α) (events : List (Event σ α)) :
    Option (Junction σ α) :=
  course? (next? transport) t events

/-- What was done for the dispatch of a number. -/
def deedsOf (t : Junction σ α) (n : Nat) : List (Deed σ α) :=
  (t.deeds.filter (·.1 = n)).map Prod.snd

/-- What the node is told of its role in a course of events. -/
def roleCalls (events : List (Event σ α)) : List RoleCall :=
  events.filterMap fun
    | .role call => some call
    | _ => none

/-- The requests of a course of events, each with what would carry it out. -/
def arrivals (events : List (Event σ α)) : List (Request × (σ → α × σ)) :=
  events.filterMap fun
    | .arrive r carryOut => some (r, carryOut)
    | _ => none

end Junction

end InletRegistry.Routing
