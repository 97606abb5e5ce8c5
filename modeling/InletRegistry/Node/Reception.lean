import InletRegistry.Course
import InletRegistry.Locks.Event
import InletRegistry.Node.Basic
import InletRegistry.Routing.Wire

/-!
# Requests one after another

A node that carries requests out itself, with everything that it has been asked. A request is answered
at once, or its order waits for a lock; then it goes on when the lock is handed to it, gives up when
its time is up, or is dropped when its client goes away. Others may hold locks of the node by hand.

A node comes to rest before it turns to the next thing: whoever has been handed a lock goes on first,
and from taking a lock to letting go of it an order does not pause. So nobody waits for a lock longer
because of the speed at which another works. Only a client may go away at any time, also after a lock has
been handed to its order and before that goes on; then the lock goes to the next that waits for it, and if
there is none, the mutex is left behind in the table. What may happen between the steps of an order is the
matter of `Registry.Traffic`.

Identifiers and tickets are drawn in ascending order, and any number of them may be passed over.

`others` are the events of a course without one of its requests.
-/

namespace InletRegistry

open InletRegistry.Http InletRegistry.Routing InletRegistry.Registry InletRegistry.Locks
open InletRegistry.Time

/-- What has become of a request. -/
inductive Reception.Call where
  | answered (response : Response)
  /-- Its order waits under a ticket. -/
  | waiting (ticket : Nat) (visit : Visit)
  /-- Its client went away. -/
  | dropped
  deriving DecidableEq, Repr

namespace Reception.Call

/-- The ticket under which its order waits. -/
def ticket? : Call → Option Nat
  | waiting ticket _ => some ticket
  | _ => none

/-- Whether it was answered with an error. -/
def isFailed : Call → Bool
  | answered response => 400 ≤ response.status
  | _ => false

/-- Whether it was answered that the caller may not do this. -/
def isDenied : Call → Bool
  | answered response => response.status = 403
  | _ => false

/-- A call, brought to its end if its order waited under a ticket. -/
def ended (ticket : Nat) (ending : Visit → Call) : Call → Call
  | waiting k visit => if k = ticket then ending visit else waiting k visit
  | call => call

end Reception.Call

/-- A node and its calls, in the order in which the requests came. -/
structure Reception where
  node : Node
  calls : List Reception.Call

namespace Reception

/-- What can happen at a node. -/
inductive Event where
  | request (now : Nat) (r : Request)
  /-- The claim to which a lock has been handed goes on. -/
  | resume (ticket : Nat)
  /-- The time of a claim is up. -/
  | expire (ticket : Nat)
  /-- The client behind a claim goes away. -/
  | cancel (ticket : Nat)
  /-- A lock is wanted by hand. -/
  | hold (now : Nat) (id : String) (patience : Duration)
  /-- A lock that is held by hand is let go of. -/
  | release (ticket : Nat)
  /-- Identifiers and tickets are passed over. -/
  | pass (identifiers tickets : Nat)
  deriving DecidableEq

namespace Event

/-- The ticket of the claim that it befalls. -/
def ticket? : Event → Option Nat
  | resume ticket => some ticket
  | expire ticket => some ticket
  | cancel ticket => some ticket
  | release ticket => some ticket
  | _ => none

def isRequest : Event → Bool
  | request _ _ => true
  | _ => false

def isCancel : Event → Bool
  | cancel _ => true
  | _ => false

end Event

def service (t : Reception) : Service := t.node.service

def locks (t : Reception) : LockTable := t.service.locks

def ledger (t : Reception) : Ledger := t.service.ledger

/-- The reception after a change of its service. -/
def onService (t : Reception) (f : Service → Service) : Reception :=
  { t with node := { t.node with service := f t.service } }

/-- Takes a request. The node hands none on, so it does not matter what network it has. -/
def take (t : Reception) (now : Nat) (r : Request) : Reception :=
  match t.node.receive (isolated Unit) now r () with
  | (_, .answered response, node, _) => ⟨node, t.calls ++ [.answered response]⟩
  | (visit, .waiting ticket, node, _) => ⟨node, t.calls ++ [.waiting ticket visit]⟩

/-- Lets the order of a ticket go on, or gives it up, by an action of the service. -/
def proceed (t : Reception) (ticket : Nat) (action : Service → Option Registry.Outcome × Service) :
    Reception :=
  match t.node.proceed action with
  | (some outcome, node) =>
    ⟨node, t.calls.map (.ended ticket fun v => .answered (v.conclude (node.respond outcome)))⟩
  | (none, node) => ⟨node, t.calls⟩

/-- The reception after an event that may happen to it unless it has to come to rest first. -/
def turn? (t : Reception) : Event → Option Reception
  | .request now r => some (t.take now r)
  | .resume _ => none
  | .expire ticket =>
    (t.locks.claimAt? ticket Stage.waits).map fun _ => t.proceed ticket (·.expire ticket)
  | .cancel ticket =>
    (t.locks.claimAt? ticket Stage.isSuspended).map fun _ =>
      { t.onService (·.cancel ticket) with calls := t.calls.map (.ended ticket fun _ => .dropped) }
  | .hold now id patience =>
    some (t.onService fun s => { s with locks := (s.locks.acquire now id patience).2 })
  | .release ticket =>
    (t.locks.claimAt? ticket (· = .held)).map fun _ =>
      t.onService fun s => { s with locks := s.locks.release ticket }
  | .pass identifiers tickets => some (t.onService (·.passOver identifiers tickets))

/-- The reception after an event, if that is possible. -/
def next? (t : Reception) (e : Event) : Option Reception :=
  match t.locks.handed? with
  | some c =>
    if e = .resume c.ticket then some (t.proceed c.ticket (·.resume c.ticket))
    else if e.isCancel then t.turn? e
    else none
  | none => t.turn? e

/-- The reception after a course of events. -/
abbrev run? (t : Reception) (events : List Event) : Option Reception := course? next? t events

/-- Events without those that befall the claim of a ticket. -/
def besides (ticket? : Option Nat) (events : List Event) : List Event :=
  match ticket? with
  | some ticket => events.filter (·.ticket? ≠ some ticket)
  | none => events

/-- The events of a course without the request of one call: the numbers that were drawn for it are
passed over, and what befell its claim does not happen. -/
def others (t : Reception) (i : Nat) : List Event → List Event
  | [] => []
  | e :: events =>
    match t.next? e with
    | none => e :: events
    | some u =>
      if e.isRequest && t.calls.length = i then
        .pass (u.ledger.fresh - t.ledger.fresh) (u.locks.fresh - t.locks.fresh) ::
          besides ((u.calls[i]?).bind Call.ticket?) events
      else e :: others u i events

end Reception

end InletRegistry
