import InletRegistry.Course
import InletRegistry.Locks.Event
import InletRegistry.Write.Pipeline

/-!
# Runs side by side

A desk runs any number of changes, each under the lock of its resource. A run makes its claim on the
lock, waits, takes the steps of its change one by one while the lock is its own, and lets go of the
lock; between any two of these others may go on. A run that has not got its lock may lapse, and it may
be dropped when nobody waits for it any more.

Changes bring their steps with them, so nothing is known of what a step does or finds. Every call of a
step is put into a log, with what came of it and with the locks at that moment. What the changes work
on may be stirred by others at any time, and others may use the locks.
-/

namespace InletRegistry

namespace Write

open InletRegistry.Time

variable {σ α β : Type}

/-- A call of a step, with what came of it. -/
inductive Call (α : Type) where
  | authorize (outcome : Except Failure Unit)
  | verify (outcome : Except Failure Unit)
  | currentVersion (outcome : Except Failure Nat)
  | execute (outcome : Except Failure α)

/-- The same steps, which note every call. -/
def Steps.noted (steps : Steps σ α) (note : Call α → β) : Steps (σ × List β) α where
  authorize := fun (s, log) =>
    let (outcome, s) := steps.authorize s
    (outcome, s, log ++ [note (.authorize outcome)])
  verify := fun (s, log) =>
    let (outcome, s) := steps.verify s
    (outcome, s, log ++ [note (.verify outcome)])
  currentVersion := fun (s, log) =>
    let (outcome, s) := steps.currentVersion s
    (outcome, s, log ++ [note (.currentVersion outcome)])
  execute := fun (s, log) =>
    let (outcome, s) := steps.execute s
    (outcome, s, log ++ [note (.execute outcome)])

/-- Where a run stands, with the ticket of its claim. -/
inductive Stand (α : Type) where
  | queued (ticket : Nat)
  /-- The lock is its own. -/
  | working (ticket : Nat) (progress : Progress α)
  /-- It did not get the lock in time. -/
  | lapsed (ticket : Nat)
  | returned (ticket : Nat) (result : Except Failure α)
  | dropped (ticket : Nat)

namespace Stand

def ticket : Stand α → Nat
  | queued ticket => ticket
  | working ticket _ => ticket
  | lapsed ticket => ticket
  | returned ticket _ => ticket
  | dropped ticket => ticket

/-- Whether the run still has its claim. -/
def isOpen : Stand α → Bool
  | queued _ => true
  | working _ _ => true
  | _ => false

end Stand

/-- A run of a change. The steps may look at the locks. -/
structure Run (σ α : Type) where
  revision : Revision
  steps : LockTable → Steps σ α
  stand : Stand α

/-- The seat of a run at the locks, as long as it has its claim. -/
def Run.seat? (run : Run σ α) : Option Locks.Seat :=
  match run.stand with
  | .queued ticket => some ⟨ticket, run.revision.resourceId, false⟩
  | .working ticket _ => some ⟨ticket, run.revision.resourceId, true⟩
  | _ => none

/-- What a run comes to for the one who asked for it, once it is over. -/
def Run.result? (patience : Duration) (run : Run σ α) : Option (Except Failure α) :=
  match run.stand with
  | .lapsed _ => some (.error (LockTable.busy run.revision.resourceId patience))
  | .returned _ result => some result
  | _ => none

/-- A call in the log of a desk. -/
structure Entry (α : Type) where
  run : Nat
  /-- The locks at the moment of the call. -/
  locks : LockTable
  call : Call α

end Write

open Write Time

/-- A desk with the runs that it has taken. -/
structure Desk (σ α : Type) where
  /-- How long a run may wait for a lock. -/
  patience : Duration
  locks : LockTable
  /-- What the changes work on. -/
  state : σ
  log : List (Entry α)
  runs : List (Run σ α)

namespace Desk

variable {σ α : Type}

/-- What can happen at a desk. -/
inductive Event (σ α : Type) where
  | take (revision : Revision) (steps : LockTable → Steps σ α)
  /-- A run takes the step that is due. -/
  | go (n : Nat)
  | lapse (n : Nat)
  | drop (n : Nat)
  /-- Something happens at the locks by which no run gives its claim up. -/
  | locks (e : Locks.Event)
  /-- Somebody else changes what the changes work on. -/
  | stir (state : σ)

def start (patience : Duration) (state : σ) : Desk σ α := ⟨patience, .empty, state, [], []⟩

/-- The desk at which a run stands somewhere else. -/
def moved (t : Desk σ α) (n : Nat) (run : Run σ α) (stand : Stand α) : Desk σ α :=
  { t with runs := t.runs.set n { run with stand } }

/-- A run goes on, if it can. -/
def goOn? (t : Desk σ α) (n : Nat) (run : Run σ α) : Option (Desk σ α) :=
  match run.stand with
  | .queued ticket =>
    if t.locks.holds ticket then some (t.moved n run (.working ticket (.due .authorizing)))
    else none
  | .working ticket (.due phase) =>
    let steps := (run.steps t.locks).noted (Entry.mk n t.locks)
    let (progress, state, log) := steps.advance run.revision (t.state, t.log) phase
    some ({ t with state, log }.moved n run (.working ticket progress))
  | .working ticket (.ended result) =>
    (t.locks.next? (.release ticket)).map fun locks =>
      { t with locks }.moved n run (.returned ticket result)
  | _ => none

/-- A run gives up before it has its lock. -/
def giveUp? (t : Desk σ α) (n : Nat) (run : Run σ α) (quit : Nat → Locks.Event)
    (stand : Nat → Stand α) : Option (Desk σ α) :=
  match run.stand with
  | .queued ticket =>
    (t.locks.next? (quit ticket)).map fun locks => { t with locks }.moved n run (stand ticket)
  | _ => none

/-- The seats of the runs. -/
def seats (t : Desk σ α) : List (Option Locks.Seat) := t.runs.map Run.seat?

/-- The desk after an event, if that is possible. -/
def next? (t : Desk σ α) : Event σ α → Option (Desk σ α)
  | .take revision steps =>
    let (ticket, locks) := t.locks.arrive revision.resourceId t.patience
    some { t with locks, runs := t.runs ++ [⟨revision, steps, .queued ticket⟩] }
  | .go n => (t.runs[n]?).bind fun run => t.goOn? n run
  | .lapse n => (t.runs[n]?).bind fun run => t.giveUp? n run .lapse .lapsed
  | .drop n => (t.runs[n]?).bind fun run => t.giveUp? n run .cancel .dropped
  | .locks e => if Locks.spares t.seats e then (t.locks.next? e).map fun locks => { t with locks } else none
  | .stir state => some { t with state }

abbrev run? (t : Desk σ α) (events : List (Event σ α)) : Option (Desk σ α) :=
  course? next? t events

/-- The calls of a run, in order. -/
def callsOf (t : Desk σ α) (n : Nat) : List (Call α) :=
  (t.log.filter (·.run = n)).map (·.call)

end Desk

end InletRegistry
