import InletRegistry.Locks.Basic

/-!
# Locks on a virtual clock

A session drives one lock table on a clock that stands still while anything can run and jumps to
the next deadline when the one who drives it has to wait. Guards are kept in named slots; a guard
put into a slot releases the one that was there. An acquire may run in the background, and its
outcome is then an event of the step in which it comes.

`settle` is the heart: as long as a claim has been handed its mutex or its deadline has come, the
claim runs.
-/

namespace InletRegistry.Locks

open InletRegistry.Time

/-- The outcome of an acquire: the resource whose lock was granted, or why it was not. -/
abbrev Outcome := Except Failure String

/-- Something that came about in the background. -/
structure Happening where
  slot : String
  outcome : Outcome

/-- Who waits for the outcome of a claim, and the slot for the guard. -/
structure Waiter where
  ticket : Nat
  slot : String
  inBackground : Bool

/-- A lock table, its clock, and what is known of its claims. -/
structure Session where
  table : LockTable
  /-- The clock. -/
  now : Nat
  guards : List (String × Nat)
  waiters : List Waiter
  /-- The outcome for the one who drives the session. -/
  answer : Option Outcome
  /-- What came about in the background in this step, latest first. -/
  happenings : List Happening

namespace Session

/-- A session at its start. -/
def start : Session := ⟨.empty, 0, [], [], none, []⟩

/-- Tells an outcome to the one who awaits it. -/
def tell (s : Session) (w : Waiter) (o : Outcome) : Session :=
  let s := { s with waiters := s.waiters.filter (·.ticket ≠ w.ticket) }
  if w.inBackground then { s with happenings := ⟨w.slot, o⟩ :: s.happenings }
  else { s with answer := some o }

/-- Puts a guard into a slot and releases the one that was there. -/
def putGuard (s : Session) (slot : String) (ticket : Nat) : Session :=
  let table := match s.guards.lookup slot with
    | some old => s.table.release old
    | none => s.table
  { s with table, guards := (slot, ticket) :: s.guards.filter (·.1 ≠ slot) }

/-- The outcome of a claim that holds its mutex. -/
def granted (s : Session) (ticket : Nat) (id : String) : Session :=
  match s.waiters.find? (·.ticket = ticket) with
  | some w => (s.putGuard w.slot ticket).tell w (.ok id)
  | none => s

/-- A claim that has been handed its mutex, or whose deadline has come, runs. -/
def runOne? (s : Session) : Option Session :=
  match s.table.handed? with
  | some c => some ({ s with table := s.table.resume c.ticket }.granted c.ticket c.id)
  | none =>
    match s.table.overdue? s.now with
    | some c =>
      let s := { s with table := s.table.expire c.ticket }
      match s.waiters.find? (·.ticket = c.ticket) with
      | some w => some (s.tell w (.error (LockTable.busy c.id c.patience)))
      | none => some s
    | none => none

/-- Claims run until none can; every run brings a claim on, so there are at most two for each. -/
def settleFor : Nat → Session → Session
  | 0, s => s
  | n + 1, s =>
    match s.runOne? with
    | some s => settleFor n s
    | none => s

/-- Claims run until none can. -/
def settle (s : Session) : Session := settleFor (2 * s.table.claims.length + 1) s

/-- The clock goes on to one deadline after another until the outcome is there. -/
def awaitFor : Nat → Session → Session
  | 0, s => s
  | n + 1, s =>
    match s.answer, s.table.nextDeadline? with
    | none, some deadline => awaitFor n { s with now := max s.now deadline }.settle
    | _, _ => s

/-- Waits for the outcome. -/
def await (s : Session) : Session := awaitFor (s.table.claims.length + 1) s

/-- What is asked of a session. -/
inductive Step where
  /-- Acquire a lock, wait for it and keep the guard in a slot. -/
  | acquire (id slot : String) (patience : Duration)
  | spawn (id slot : String) (patience : Duration)
  | release (slot : String)
  | cancel (slot : String)
  | advance (milliseconds : Nat)

/-- What a step gives back. -/
inductive Reply where
  | nothing
  | acquired (o : Outcome)
  /-- The resource whose guard was released, if there was a guard. -/
  | released (id : Option String)

/-- A claim arrives and is granted at once if it can be. -/
def begin (s : Session) (id slot : String) (patience : Duration) (inBackground : Bool) : Session :=
  let (ticket, table) := s.table.acquire s.now id patience
  let s := { s with table, waiters := ⟨ticket, slot, inBackground⟩ :: s.waiters }
  if table.holds ticket then s.granted ticket id else s

/-- Takes a step. -/
def take (s : Session) (step : Step) : Reply × Session :=
  let s := { s with answer := none, happenings := [] }
  match step with
  | .acquire id slot patience =>
    let s := (s.begin id slot patience false).settle.await
    (match s.answer with
      | some o => .acquired o
      | none => .nothing, s)
  | .spawn id slot patience => (.nothing, (s.begin id slot patience true).settle)
  | .release slot =>
    match s.guards.lookup slot with
    | none => (.released none, s.settle)
    | some ticket =>
      let id := (s.table.claim? ticket).map (·.id)
      (.released id,
        { s with
          table := s.table.release ticket
          guards := s.guards.filter (·.1 ≠ slot) }.settle)
  | .cancel slot =>
    match s.waiters.find? fun w => w.slot = slot ∧ w.inBackground with
    | none => (.nothing, s.settle)
    | some w =>
      (.nothing,
        { s with
          table := s.table.cancel w.ticket
          waiters := s.waiters.filter (·.ticket ≠ w.ticket) }.settle)
  | .advance milliseconds => (.nothing, { s with now := s.now + milliseconds }.settle)

end Session

end InletRegistry.Locks
