import InletRegistry.Course
import InletRegistry.Locks.Event
import InletRegistry.Registry.Operation

/-!
# A service at work

What can happen at a service, one thing after another. Operations are asked of it; an order that waits
for its lock goes on when the lock has been handed to it, gives up when its time is up, or is dropped when
its client goes away; and others may take locks of the service and let go of them. What is said at an
event is its reply: an outcome, or the ticket under which an order waits.

`others` are the events of a course that are not about an inlet.
-/

namespace InletRegistry.Registry.Service

open InletRegistry.Locks InletRegistry.Time

/-- What can happen at a service. -/
inductive Event where
  /-- An operation is asked of an inlet. -/
  | ask (now : Nat) (caller id : String) (op : Operation)
  /-- The claim to which a lock has been handed goes on. -/
  | resume (ticket : Nat)
  /-- The time of a claim is up. -/
  | expire (ticket : Nat)
  /-- The client behind a claim goes away. -/
  | cancel (ticket : Nat)
  /-- Somebody else wants the lock of an inlet. -/
  | hold (now : Nat) (id : String) (patience : Duration)
  /-- Somebody else lets go of a lock. -/
  | release (ticket : Nat)
  /-- Numbers of identifiers and of tickets are passed over. -/
  | pass (identifiers tickets : Nat)
  deriving DecidableEq

/-- What is said at an event, if anything is: an outcome, or the ticket of an order that waits. -/
abbrev Reply := Option (Except Nat Outcome)

/-- The reply to an event and the service after it, if the event is possible. -/
def next? (s : Service) : Event → Option (Reply × Service)
  | .ask now caller id op =>
    match op.toTask s.kind caller id with
    | .error f => some (some (.ok (.error f)), s)
    | .ok task =>
      let (reply, s) := s.start? now task
      some (some reply, s)
  | .resume ticket =>
    (s.locks.claimAt? ticket (· = .handed)).map fun _ =>
      let (outcome, s) := s.resume ticket
      (outcome.map .ok, s)
  | .expire ticket =>
    (s.locks.claimAt? ticket Stage.waits).map fun _ =>
      let (outcome, s) := s.expire ticket
      (outcome.map .ok, s)
  | .cancel ticket =>
    (s.locks.claimAt? ticket Stage.isSuspended).map fun _ => (none, s.cancel ticket)
  | .hold now id patience =>
    some (none, { s with locks := (s.locks.acquire now id patience).2 })
  | .release ticket =>
    (s.locks.claimAt? ticket (· = .held)).map fun _ =>
      (none, { s with locks := s.locks.release ticket })
  | .pass identifiers tickets => some (none, s.passOver identifiers tickets)

/-- The service after a course of events. -/
abbrev run? (s : Service) (events : List Event) : Option Service :=
  course? (fun s e => (s.next? e).map Prod.snd) s events

/-- Whether an event is about an inlet. -/
def concerns (s : Service) (id : String) : Event → Bool
  | .ask _ _ i _ => i = id
  | .hold _ i _ => i = id
  | .resume ticket | .expire ticket | .cancel ticket | .release ticket =>
    (s.locks.claim? ticket).any (·.id = id)
  | .pass _ _ => false

/-- The events of a course without those about an inlet, for which numbers are passed over. -/
def others (id : String) (s : Service) : List Event → List Event
  | [] => []
  | e :: events =>
    match s.next? e with
    | none => e :: events
    | some (_, u) =>
      (if s.concerns id e then
        .pass (u.ledger.fresh - s.ledger.fresh) (u.locks.fresh - s.locks.fresh)
      else e) :: others id u events

end InletRegistry.Registry.Service
