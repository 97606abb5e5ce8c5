import InletRegistry.Failure
import InletRegistry.Time.Duration

/-!
# Locks on resources

Whoever wants to change a resource acquires its lock first, waits for it at most for a stated time,
and releases it afterwards. A lock is a mutex that the table holds under the resource's id: it is
put there when it is first asked for and evicted when nobody holds it or waits for it any more.

Every acquire is a claim, and the claims stand in the order in which they arrived. A claim keeps a
reference to its mutex from the moment it arrives to the moment it departs, and eviction goes by
these references: a mutex without one is idle.

Several claims may be on their way at the same time, so what a claim does is cut into the steps
between which others may act. It arrives (takes the mutex from the table), asks for the mutex and
waits or holds it at once, is handed it, holds it, lets go of it or of its place in the queue,
departs, and looks back whether the mutex is idle now. `acquire`, `resume`, `release`, `expire` and
`cancel` are these steps put together for one who acts alone. A release hands the mutex to the
earliest claim that waits for it; a claim that has been handed the mutex is granted it even if its
deadline has come meanwhile. A claim that is cancelled does not look back.

Instants are counts of milliseconds on the registry's clock, and a deadline is the first such
instant at which the whole time has passed.
-/

namespace InletRegistry.Locks

open InletRegistry.Time

/-- Where a claim stands. -/
inductive Stage where
  /-- It has taken the mutex from the table and not asked for it yet. -/
  | arrived
  /-- It waits until a deadline. -/
  | waiting (deadline : Nat)
  /-- It has been handed the mutex and has not run since. -/
  | handed
  /-- It holds the mutex. -/
  | held
  /-- It has let go of the mutex, or of its place in the queue, and keeps only its reference;
  whether it will look back once it has departed. -/
  | leaving (looksBack : Bool)
  deriving DecidableEq, Repr

namespace Stage

/-- Whether the mutex is the claim's own: nobody else may have it. -/
def owns : Stage → Bool
  | handed => true
  | held => true
  | _ => false

/-- Whether the claim stands in the queue for the mutex. -/
def waits : Stage → Bool
  | waiting _ => true
  | _ => false

end Stage

/-- Somebody who holds the lock of a resource or wants it. -/
structure Claim where
  /-- What tells this claim from all others. -/
  ticket : Nat
  id : String
  /-- The mutex that stood in the table when the claim arrived. -/
  mutex : Nat
  patience : Duration
  stage : Stage
  deriving DecidableEq, Repr

namespace Claim

/-- The claim, moved on to a stage if the ticket is its own. -/
def moved (ticket : Nat) (stage : Stage) (c : Claim) : Claim :=
  if c.ticket = ticket then { c with stage } else c

variable {ticket : Nat} {stage : Stage} {c : Claim}

/-- Moving on changes the stage alone. -/
theorem moved_of_ticket (h : c.ticket = ticket) : c.moved ticket stage = { c with stage } :=
  if_pos h

/-- No other claim is moved. -/
theorem moved_of_ne (h : c.ticket ≠ ticket) : c.moved ticket stage = c := if_neg h

@[simp] theorem moved_ticket : (c.moved ticket stage).ticket = c.ticket := by
  unfold moved
  split <;> rfl

@[simp] theorem moved_id : (c.moved ticket stage).id = c.id := by
  unfold moved
  split <;> rfl

@[simp] theorem moved_mutex : (c.moved ticket stage).mutex = c.mutex := by
  unfold moved
  split <;> rfl

end Claim

end Locks

open Locks Time

/-- The locks of a registry. -/
structure LockTable where
  mutexes : List (String × Nat)
  /-- The claims in the order in which they arrived. -/
  claims : List Claim
  /-- The resources of the claims that have departed and will still look back. -/
  lookbacks : List String
  /-- A number that no mutex and no claim has had. -/
  fresh : Nat
  deriving DecidableEq, Repr

namespace LockTable

/-- The table without locks. -/
def empty : LockTable := ⟨[], [], [], 0⟩

/-- How many resources have a lock in the table. -/
def size (t : LockTable) : Nat := t.mutexes.length

/-- The claim of a ticket. -/
def claim? (t : LockTable) (ticket : Nat) : Option Claim := t.claims.find? (·.ticket = ticket)

/-- Whether no claim refers to a mutex. -/
def isIdle (t : LockTable) (mutex : Nat) : Bool := t.claims.all (·.mutex ≠ mutex)

/-- Whether a mutex is nobody's own. -/
def isFree (t : LockTable) (mutex : Nat) : Bool :=
  t.claims.all fun c => c.mutex ≠ mutex || !c.stage.owns

/-- That the lock of a resource was not to be had in time. -/
def busy (id : String) (patience : Duration) : Failure :=
  .busy ("write lock for " ++ id ++ " not acquired within " ++ patience.text)

/-! ## Steps -/

/-- The mutex of a resource, put into the table if it is not there. A number is drawn for it either
way. -/
def mutexFor (t : LockTable) (id : String) : Nat × LockTable :=
  match t.mutexes.lookup id with
  | some m => (m, { t with fresh := t.fresh + 1 })
  | none => (t.fresh, { t with mutexes := t.mutexes ++ [(id, t.fresh)], fresh := t.fresh + 1 })

/-- A claim arrives and takes the mutex of its resource from the table. The ticket is given with the
table. -/
def arrive (t : LockTable) (id : String) (patience : Duration) : Nat × LockTable :=
  let (m, t) := t.mutexFor id
  (t.fresh, { t with
    claims := t.claims ++ [⟨t.fresh, id, m, patience, .arrived⟩]
    fresh := t.fresh + 1 })

/-- The table in which the claim of a ticket stands somewhere else. -/
def setStage (t : LockTable) (ticket : Nat) (stage : Stage) : LockTable :=
  { t with claims := t.claims.map (Claim.moved ticket stage) }

/-- A claim asks for its mutex: it holds a free one at once and waits for any other. -/
def ask (t : LockTable) (now ticket : Nat) : LockTable :=
  match t.claim? ticket with
  | some c =>
    t.setStage ticket
      (if t.isFree c.mutex then .held else .waiting (now + c.patience.milliseconds))
  | none => t

/-- A claim that waits is handed its mutex. -/
def hand (t : LockTable) (ticket : Nat) : LockTable := t.setStage ticket .handed

/-- Hands a mutex to the earliest claim that waits for it. -/
def handOn (t : LockTable) (mutex : Nat) : LockTable :=
  match t.claims.find? fun c => c.mutex = mutex && c.stage.waits with
  | some c => t.hand c.ticket
  | none => t

/-- A claim that has been handed its mutex runs and holds it from now on. -/
def resume (t : LockTable) (ticket : Nat) : LockTable :=
  match t.claim? ticket with
  | some c => if c.stage = .handed then t.setStage ticket .held else t
  | none => t

/-- A claim lets go of its mutex or of its place in the queue. -/
def letGo (t : LockTable) (ticket : Nat) (looksBack : Bool) : LockTable :=
  t.setStage ticket (.leaving looksBack)

/-- A claim gives up its reference to the mutex and is gone. -/
def depart (t : LockTable) (ticket : Nat) : LockTable :=
  match t.claim? ticket with
  | some c =>
    { t with
      claims := t.claims.filter (·.ticket ≠ ticket)
      lookbacks := if c.stage = .leaving true then t.lookbacks ++ [c.id] else t.lookbacks }
  | none => t

/-- Takes the mutex of a resource out of the table if it is idle. -/
def evict (t : LockTable) (id : String) : LockTable :=
  match t.mutexes.lookup id with
  | some m => if t.isIdle m then { t with mutexes := t.mutexes.filter (·.1 ≠ id) } else t
  | none => t

/-- A claim that has departed looks back whether the mutex of its resource is idle now. -/
def lookBack (t : LockTable) (id : String) : LockTable :=
  { t with lookbacks := t.lookbacks.erase id }.evict id

/-! ## Acting alone -/

/-- A claim arrives and asks for its mutex. The ticket is given with the table. -/
def acquire (t : LockTable) (now : Nat) (id : String) (patience : Duration) : Nat × LockTable :=
  let (ticket, t) := t.arrive id patience
  (ticket, t.ask now ticket)

/-- Whether a ticket's claim holds its mutex. -/
def holds (t : LockTable) (ticket : Nat) : Bool :=
  match t.claim? ticket with
  | some c => c.stage = .held
  | none => false

/-- A holder lets go: the mutex goes to the next claim, or out of the table. -/
def release (t : LockTable) (ticket : Nat) : LockTable :=
  match t.claim? ticket with
  | some c =>
    if c.stage = .held then
      (((t.letGo ticket true).handOn c.mutex).depart ticket).lookBack c.id
    else t
  | none => t

/-- A claim that waits gives up because its deadline has come. -/
def expire (t : LockTable) (ticket : Nat) : LockTable :=
  match t.claim? ticket with
  | some c =>
    if c.stage.waits then ((t.letGo ticket true).depart ticket).lookBack c.id else t
  | none => t

/-- A claim is dropped before it holds its mutex; if it had been handed the mutex, the next claim
gets it. -/
def cancel (t : LockTable) (ticket : Nat) : LockTable :=
  match t.claim? ticket with
  | some c =>
    if c.stage.waits then (t.letGo ticket false).depart ticket
    else if c.stage = .handed then ((t.letGo ticket false).handOn c.mutex).depart ticket
    else t
  | none => t

/-- The first claim that has been handed its mutex. -/
def handed? (t : LockTable) : Option Claim := t.claims.find? (·.stage = .handed)

/-- The first claim whose deadline has come. -/
def overdue? (t : LockTable) (now : Nat) : Option Claim :=
  t.claims.find? fun c => match c.stage with
    | .waiting deadline => deadline ≤ now
    | _ => false

/-- The deadlines of the claims that wait. -/
def deadlines (t : LockTable) : List Nat :=
  t.claims.filterMap fun c => match c.stage with
    | .waiting deadline => some deadline
    | _ => none

/-- The next deadline. -/
def nextDeadline? (t : LockTable) : Option Nat := t.deadlines.min?

end LockTable

end InletRegistry
