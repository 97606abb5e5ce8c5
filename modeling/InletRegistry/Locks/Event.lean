import InletRegistry.Course
import InletRegistry.Locks.Basic

/-!
# Claims side by side

What can happen at a table of locks while any number of claims are on their way: one step of one
claim after another, in any order. An event is possible only where its claim stands in the right
place (`next?`), and a course of events may lead on from every event to any other that is possible
then.

A mutex is taken to be exclusive, and a claim that lets go of it, or that was handed it and is given
up, leaves it free. Nothing else is asked of the queue: `hand` gives a free mutex to any claim that
waits for it, at any moment, so whatever order the mutexes keep is among these courses. Likewise a
claim may lapse at any moment before it runs as the holder, so every choice of deadlines is among
them.

Those who use the locks side by side, the runs of changes or the requests to a node, are listed in the
order in which they came. One who wants a lock or has it stands behind a claim of his own: he has a
seat. Only he makes the claim quit, so whatever else happens at the locks has to spare the seats.
-/

namespace InletRegistry

open Locks Time

namespace Locks

namespace Stage

/-- Whether the claim may still be given up: it waits, or has been handed the mutex and not run. -/
def isSuspended : Stage → Bool
  | waiting _ => true
  | handed => true
  | _ => false

/-- A claim that waits may be given up. -/
theorem isSuspended_of_waits {stage : Stage} (h : stage.waits = true) :
    stage.isSuspended = true := by
  cases stage with
  | waiting deadline => rfl
  | _ => cases h

theorem waits_or_handed {stage : Stage} (h : stage.isSuspended = true) :
    stage.waits = true ∨ stage = .handed := by
  cases stage with
  | waiting deadline => exact Or.inl rfl
  | handed => exact Or.inr rfl
  | _ => cases h

/-- Whether the claim only keeps its reference. -/
def isLeaving : Stage → Bool
  | leaving _ => true
  | _ => false

end Stage

/-- A step of one claim. -/
inductive Event where
  /-- A claim on a resource arrives and takes the mutex from the table. -/
  | arrive (id : String) (patience : Duration)
  /-- It asks for the mutex. -/
  | ask (now ticket : Nat)
  /-- It is handed the mutex. -/
  | hand (ticket : Nat)
  /-- It runs as the holder. -/
  | resume (ticket : Nat)
  /-- The holder lets go of the mutex. -/
  | release (ticket : Nat)
  /-- Its time is up. -/
  | lapse (ticket : Nat)
  /-- It is dropped. -/
  | cancel (ticket : Nat)
  /-- It gives up its reference to the mutex. -/
  | depart (ticket : Nat)
  /-- A claim that has departed looks back whether the mutex is idle. -/
  | lookBack (id : String)
  deriving DecidableEq, Repr

namespace Event

/-- The ticket of the claim that takes the step, if a claim that is there already takes it. -/
def ticket? : Event → Option Nat
  | arrive _ _ => none
  | ask _ ticket => some ticket
  | hand ticket => some ticket
  | resume ticket => some ticket
  | release ticket => some ticket
  | lapse ticket => some ticket
  | cancel ticket => some ticket
  | depart ticket => some ticket
  | lookBack _ => none

/-- The ticket of the claim that lets go of its mutex, or of its place in the queue, by the step. -/
def quitter? : Event → Option Nat
  | release ticket => some ticket
  | lapse ticket => some ticket
  | cancel ticket => some ticket
  | _ => none

end Event

/-- What somebody at the locks stands behind. -/
structure Seat where
  /-- The ticket of the claim. -/
  ticket : Nat
  id : String
  /-- Whether the lock has become his own. -/
  isOwner : Bool
  deriving DecidableEq, Repr

/-- Whether nobody who has a seat quits by an event at the locks. -/
def spares (seats : List (Option Seat)) (e : Event) : Bool :=
  seats.all fun seat => e.quitter?.all fun ticket => seat.map Seat.ticket ≠ some ticket

end Locks

namespace LockTable

/-- The claim of a ticket, if it stands in a certain place. -/
def claimAt? (t : LockTable) (ticket : Nat) (place : Stage → Bool) : Option Claim :=
  (t.claim? ticket).filter fun c => place c.stage

/-- The table after an event, if that is possible. -/
def next? (t : LockTable) : Event → Option LockTable
  | .arrive id patience => some (t.arrive id patience).2
  | .ask now ticket => (t.claimAt? ticket (· = .arrived)).map fun _ => t.ask now ticket
  | .hand ticket =>
    ((t.claimAt? ticket Stage.waits).filter fun c => t.isFree c.mutex).map fun _ => t.hand ticket
  | .resume ticket => (t.claimAt? ticket (· = .handed)).map fun _ => t.resume ticket
  | .release ticket => (t.claimAt? ticket (· = .held)).map fun _ => t.letGo ticket true
  | .lapse ticket => (t.claimAt? ticket Stage.isSuspended).map fun _ => t.letGo ticket true
  | .cancel ticket => (t.claimAt? ticket Stage.isSuspended).map fun _ => t.letGo ticket false
  | .depart ticket => (t.claimAt? ticket Stage.isLeaving).map fun _ => t.depart ticket
  | .lookBack id => if id ∈ t.lookbacks then some (t.lookBack id) else none

/-- The table after a course of events. -/
abbrev run? (t : LockTable) (events : List Event) : Option LockTable := course? next? t events

/-- A claim that stands in a certain place. -/
theorem claimAt?_eq_some {t : LockTable} {ticket : Nat} {place : Stage → Bool} {c : Claim} :
    t.claimAt? ticket place = some c ↔ t.claim? ticket = some c ∧ place c.stage = true :=
  Option.filter_eq_some_iff

/-- What a claim does where it may. -/
theorem map_claimAt?_eq_some {α : Type} {t : LockTable} {u v : α} {ticket : Nat}
    {place : Stage → Bool} :
    ((t.claimAt? ticket place).map fun _ => u) = some v ↔
      (∃ c, t.claim? ticket = some c ∧ place c.stage = true) ∧ v = u := by
  rw [Option.map_eq_some_iff]
  constructor
  · rintro ⟨c, hc, rfl⟩
    exact ⟨⟨c, claimAt?_eq_some.mp hc⟩, rfl⟩
  · rintro ⟨⟨c, hc⟩, rfl⟩
    exact ⟨c, claimAt?_eq_some.mpr hc, rfl⟩

end LockTable

end InletRegistry
