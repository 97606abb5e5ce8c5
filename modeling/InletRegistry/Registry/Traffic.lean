import InletRegistry.Cluster.Membership
import InletRegistry.Course
import InletRegistry.Locks.Event
import InletRegistry.Registry.Operation

/-!
# Requests side by side

What a node does while any number of requests are on their way. Every request is a job, and a job is
taken on in steps between which all other jobs may go on: a read lets its caller through and then
shows the inlet; an order makes its claim on the lock, waits, takes the steps of a change one by one
while the lock is its own, lets go of the lock, and is put on record. An order that has not got its
lock may lapse, and it may be dropped when its client goes away.

What happens at the locks happens beside the jobs: claims ask, are handed their mutexes and run,
whether jobs stand behind them or somebody else who uses the locks. Only to quit a claim is up to the
job that stands behind it.

`request` looks at an operation and decides whether it is carried out here, both in one step: whether
a node is clustered never changes, so the decision hangs on a single reading of its role. The role may
change at any moment after that.
-/

namespace InletRegistry.Registry

open InletRegistry.Access InletRegistry.Cluster InletRegistry.Text InletRegistry.Time

/-- What a node is doing about a request. -/
inductive Job where
  | refused (f : Failure)
  /-- It is the coordinator's business. -/
  | sentOn
  /-- A caller wants to see an inlet, and may have been let through. -/
  | reading (caller id : String) (cleared : Bool)
  | shown (caller id : String) (outcome : Outcome)
  /-- An order is to be carried out here. -/
  | admitted (o : Order)
  /-- It has a claim on its lock. -/
  | queued (o : Order) (ticket : Nat)
  /-- The lock is its own. -/
  | working (o : Order) (ticket : Nat) (progress : Write.Progress (Versioned Inlet))
  /-- It has been carried out and has let go of the lock, and is not on record yet. -/
  | recording (o : Order) (result : Versioned Inlet)
  | answered (o : Order) (outcome : Outcome)
  /-- Its client went away before it had the lock. -/
  | dropped (o : Order)
  deriving DecidableEq

/-- The seat of a job at the locks, as long as it has its claim. -/
def Job.seat? : Job → Option Locks.Seat
  | queued o ticket => some ⟨ticket, o.id, false⟩
  | working o ticket _ => some ⟨ticket, o.id, true⟩
  | _ => none

/-- The ticket of the claim behind a job. -/
def Job.ticket? (job : Job) : Option Nat := job.seat?.map Locks.Seat.ticket

/-- What a job may do. -/
inductive Act where
  /-- It takes the step that is due. -/
  | go
  /-- Its time is up. -/
  | lapse
  /-- Its client goes away. -/
  | drop
  deriving DecidableEq, Repr

/-- What can happen at a node. -/
inductive Event where
  | request (caller id : String) (op : Operation)
  | act (n : Nat) (a : Act)
  /-- Something happens at the locks by which no job gives its claim up. -/
  | locks (e : Locks.Event)
  | role (call : RoleCall)
  deriving DecidableEq

/-- A node with all requests that it has taken. -/
structure Traffic where
  kind : String
  policy : Policy
  /-- How long an order may wait for a lock. -/
  patience : Duration
  membership : Membership
  ledger : Ledger
  locks : LockTable
  /-- The jobs in the order in which their requests came. -/
  jobs : List Job
  deriving DecidableEq

namespace Traffic

/-- A node that has taken no request. -/
def start (kind : String) (policy : Policy) (patience : Duration) (membership : Membership)
    (store : Store) (fresh : Nat) : Traffic :=
  ⟨kind, policy, patience, membership, ⟨store, [], fresh⟩, .empty, []⟩

/-- The inlets. -/
def store (t : Traffic) : Store := t.ledger.store

/-- The job of a request. -/
def receive (t : Traffic) (caller id : String) (op : Operation) : Job :=
  match op.toTask t.kind caller id with
  | .error f => .refused f
  | .ok task =>
    if t.membership.mustForward then .sentOn
    else match task with
      | .view caller id => .reading caller id false
      | .order o => .admitted o

/-- The step that is due for a read. -/
def look (t : Traffic) (caller id : String) (cleared : Bool) : Job × Ledger :=
  if cleared then (.shown caller id (t.store.get id), t.ledger)
  else match t.ledger.authorize t.policy caller id .read with
    | (.ok (), ledger) => (.reading caller id true, ledger)
    | (.error f, ledger) => (.shown caller id (.error f), ledger)

/-- The job of an order that has let go of its lock. -/
def afterwards (o : Order) : Outcome → Job
  | .ok result => .recording o result
  | .error f => .answered o (.error f)

/-- What a job comes to by doing something, with the locks and the ledger. -/
def act? (t : Traffic) : Job → Act → Option (Job × LockTable × Ledger)
  | .reading caller id cleared, .go =>
    let (job, ledger) := t.look caller id cleared
    some (job, t.locks, ledger)
  | .admitted o, .go =>
    let (ticket, locks) := t.locks.arrive o.id t.patience
    some (.queued o ticket, locks, t.ledger)
  | .queued o ticket, .lapse =>
    (t.locks.next? (.lapse ticket)).map fun locks =>
      (.answered o (.error (LockTable.busy o.id t.patience)), locks, t.ledger)
  | .queued o ticket, .drop =>
    (t.locks.next? (.cancel ticket)).map fun locks => (.dropped o, locks, t.ledger)
  | .queued o ticket, .go =>
    if t.locks.holds ticket then
      some (.working o ticket (.due .authorizing), t.locks, t.ledger)
    else none
  | .working o ticket (.due phase), .go =>
    let (progress, ledger) := (o.steps t.policy).advance o.revision t.ledger phase
    some (.working o ticket progress, t.locks, ledger)
  | .working o ticket (.ended outcome), .go =>
    (t.locks.next? (.release ticket)).map fun locks => (afterwards o outcome, locks, t.ledger)
  | .recording o result, .go =>
    some (.answered o (.ok result), t.locks, t.ledger.record o.caller (o.event t.kind result))
  | _, _ => none

/-- The seats of the jobs. -/
def seats (t : Traffic) : List (Option Locks.Seat) := t.jobs.map Job.seat?

/-- The node after an event, if that is possible. -/
def next? (t : Traffic) : Event → Option Traffic
  | .request caller id op => some { t with jobs := t.jobs ++ [t.receive caller id op] }
  | .act n a =>
    (t.jobs[n]?).bind fun job => (t.act? job a).map fun (job, locks, ledger) =>
      { t with ledger, locks, jobs := t.jobs.set n job }
  | .locks e => if Locks.spares t.seats e then (t.locks.next? e).map fun locks => { t with locks } else none
  | .role call => some { t with membership := t.membership.heed call }

/-- The node after a course of events. -/
abbrev run? (t : Traffic) (events : List Event) : Option Traffic := course? next? t events

end Traffic

end InletRegistry.Registry
