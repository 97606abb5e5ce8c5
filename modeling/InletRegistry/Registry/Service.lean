import InletRegistry.Locks.Basic
import InletRegistry.Registry.Order

/-!
# The service of inlets

A service shows inlets at once and carries orders out one at a time for each inlet: an order
acquires the lock of its inlet, waits for it if it has to, and is carried out when the lock is its
own. An order that waits is kept under the ticket of its claim until the lock is handed to it
(`resume`), its time is up (`expire`) or its client goes away (`cancel`).
-/

namespace InletRegistry.Registry

open InletRegistry.Access InletRegistry.Time

/-- What comes of a request. -/
abbrev Outcome := Except Failure (Versioned Inlet)

/-- A service of inlets. -/
structure Service where
  kind : String
  policy : Policy
  /-- How long an order may wait for a lock. -/
  patience : Duration
  ledger : Ledger
  locks : LockTable
  /-- The orders that wait, by the tickets of their claims. -/
  waiting : List (Nat × Order)

namespace Service

/-- A service with inlets at their versions; identifiers are made from a number on. -/
def start (kind : String) (policy : Policy) (patience : Duration) (store : Store) (fresh : Nat) :
    Service :=
  ⟨kind, policy, patience, ⟨store, [], fresh⟩, .empty, []⟩

/-- Shows an inlet. -/
def get (s : Service) (caller id : String) : Outcome × Service :=
  let (outcome, ledger) := s.ledger.get s.policy caller id
  (outcome, { s with ledger })

/-- Carries out an order whose ticket holds the lock, and lets go of the lock. -/
def finish (s : Service) (ticket : Nat) (o : Order) : Outcome × Service :=
  let (outcome, ledger) := o.carryOut s.kind s.policy s.ledger
  (outcome, { s with
    ledger
    locks := s.locks.release ticket
    waiting := s.waiting.filter (·.1 ≠ ticket) })

/-- Takes an order: it is carried out at once if its lock is free, and waits under a ticket
otherwise. -/
def submit (s : Service) (now : Nat) (o : Order) : Except Nat Outcome × Service :=
  let (ticket, locks) := s.locks.acquire now o.id s.patience
  let s := { s with locks }
  if locks.holds ticket then
    let (outcome, s) := s.finish ticket o
    (.ok outcome, s)
  else (.error ticket, { s with waiting := s.waiting ++ [(ticket, o)] })

/-- An order to which its lock has been handed is carried out. -/
def resume (s : Service) (ticket : Nat) : Option Outcome × Service :=
  let s := { s with locks := s.locks.resume ticket }
  match s.waiting.lookup ticket with
  | some o =>
    if s.locks.holds ticket then
      let (outcome, s) := s.finish ticket o
      (some outcome, s)
    else (none, s)
  | none => (none, s)

/-- An order whose time is up is turned down. -/
def expire (s : Service) (ticket : Nat) : Option Outcome × Service :=
  let locks := s.locks.expire ticket
  match s.waiting.lookup ticket with
  | some o =>
    (some (.error (LockTable.busy o.id s.patience)),
      { s with locks, waiting := s.waiting.filter (·.1 ≠ ticket) })
  | none => (none, { s with locks })

theorem expire_patience (s : Service) (ticket : Nat) :
    (s.expire ticket).2.patience = s.patience := by
  unfold expire
  split <;> rfl

/-- An order whose client goes away is dropped. -/
def cancel (s : Service) (ticket : Nat) : Service :=
  { s with locks := s.locks.cancel ticket, waiting := s.waiting.filter (·.1 ≠ ticket) }

/-- The service whose next numbers are further on. -/
def passOver (identifiers tickets : Nat) (s : Service) : Service :=
  { s with
    ledger := { s.ledger with fresh := s.ledger.fresh + identifiers }
    locks := { s.locks with fresh := s.locks.fresh + tickets } }

/-- Takes an order while nobody else acts: if the lock is not free, it does not become free in
time. -/
def submitAlone (s : Service) (now : Nat) (o : Order) : Outcome × Service :=
  match s.submit now o with
  | (.ok outcome, s) => (outcome, s)
  | (.error ticket, s) =>
    let (_, s) := s.expire ticket
    (.error (LockTable.busy o.id s.patience), s)

end Service

end InletRegistry.Registry
