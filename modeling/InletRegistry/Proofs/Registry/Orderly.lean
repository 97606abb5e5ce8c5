import InletRegistry.Proofs.Locks.Seat
import InletRegistry.Proofs.Registry.Checks
import InletRegistry.Registry.Traffic

/-!
# Order among the jobs

What holds of a node at any moment, whatever requests it has taken and however their steps fall
between each other. Every order that wants its lock or has it keeps its seat at the locks, so two orders
on one inlet never work at the same time; and therefore what the steps of an order have found out about
its inlet still holds when the next step is due.
-/

namespace InletRegistry.Registry

open InletRegistry.Access InletRegistry.Locks InletRegistry.Text InletRegistry.Write

namespace Job

/-- The order of a job. -/
def order? : Job → Option Order
  | admitted o => some o
  | queued o _ => some o
  | working o _ _ => some o
  | recording o _ => some o
  | answered o _ => some o
  | dropped o => some o
  | _ => none

/-- What the steps of an order have found out still holds. -/
def Checked (policy : Policy) (s : Store) : Job → Prop
  | working o _ (.due phase) => o.Passed policy s phase
  | _ => True

theorem checked_of_seat?_none {job : Job} {policy : Policy} {s : Store} (h : job.seat? = none) :
    job.Checked policy s := by
  cases job with
  | working => cases h
  | _ => trivial

end Job

namespace Traffic

variable {t u : Traffic} {e : Event} {events : List Event} {a : Act} {n m k : Nat}
  {job job' i j : Job} {o : Order} {locks : LockTable} {ledger : Ledger}

@[simp] theorem start_jobs {kind : String} {policy : Policy} {patience : Time.Duration}
    {membership : Cluster.Membership} {store : Store} {fresh : Nat} :
    (start kind policy patience membership store fresh).jobs = [] := rfl

theorem seats_getElem? (hn : t.jobs[n]? = some job) : t.seats[n]? = some job.seat? := by
  rw [seats, List.getElem?_map, hn, Option.map_some]

/-! ## What a job can do -/

/-- What a job can come to, with the locks and the ledger. -/
inductive Turn (t : Traffic) : Job → Job → LockTable → Ledger → Prop where
  /-- A read is taken on. -/
  | look {caller id : String} {cleared : Bool} {job : Job} {ledger : Ledger}
    (h : t.look caller id cleared = (job, ledger)) :
    Turn t (.reading caller id cleared) job t.locks ledger
  /-- An order makes its claim. -/
  | claim {o : Order} :
    Turn t (.admitted o) (.queued o (t.locks.arrive o.id t.patience).1)
      (t.locks.arrive o.id t.patience).2 t.ledger
  /-- It gives up before it has the lock. -/
  | giveUp {o : Order} {k : Nat} {job : Job} {locks : LockTable} {e : Locks.Event}
    (h : t.locks.next? e = some locks) (hquits : e.quitter? = some k)
    (hend : job = .answered o (.error (LockTable.busy o.id t.patience)) ∨ job = .dropped o) :
    Turn t (.queued o k) job locks t.ledger
  /-- It begins to work because the lock is its own. -/
  | enter {o : Order} {k : Nat} (h : t.locks.holds k = true) :
    Turn t (.queued o k) (.working o k (.due .authorizing)) t.locks t.ledger
  /-- It takes the step that is due. -/
  | step {o : Order} {k : Nat} {phase : Phase} {progress : Write.Progress (Versioned Inlet)}
    {ledger : Ledger}
    (h : (o.steps t.policy).advance o.revision t.ledger phase = (progress, ledger)) :
    Turn t (.working o k (.due phase)) (.working o k progress) t.locks ledger
  /-- It lets go of the lock. -/
  | leave {o : Order} {k : Nat} {outcome : Outcome} {locks : LockTable}
    (h : t.locks.next? (.release k) = some locks) :
    Turn t (.working o k (.ended outcome)) (afterwards o outcome) locks t.ledger
  /-- It is put on record. -/
  | record {o : Order} {v : Versioned Inlet} :
    Turn t (.recording o v) (.answered o (.ok v)) t.locks
      (t.ledger.record o.caller (o.event t.kind v))

/-- Whatever a job does is one of these turns. -/
theorem turn_of_act? (h : t.act? job a = some (job', locks, ledger)) :
    t.Turn job job' locks ledger := by
  cases job with
  | refused | sentOn | shown | answered | dropped => cases h
  | reading caller id cleared =>
    cases a with
    | go =>
      cases h
      exact .look rfl
    | _ => cases h
  | admitted o =>
    cases a with
    | go =>
      cases h
      exact .claim
    | _ => cases h
  | queued o k =>
    cases a with
    | go =>
      simp only [act?] at h
      split at h
      next hholds =>
        cases h
        exact .enter hholds
      next => cases h
    | lapse =>
      obtain ⟨locks, hnext, heq⟩ := Option.map_eq_some_iff.mp h
      cases heq
      exact .giveUp hnext rfl (Or.inl rfl)
    | drop =>
      obtain ⟨locks, hnext, heq⟩ := Option.map_eq_some_iff.mp h
      cases heq
      exact .giveUp hnext rfl (Or.inr rfl)
  | working o k progress =>
    cases a with
    | go =>
      cases progress with
      | due phase =>
        cases h
        exact .step rfl
      | ended outcome =>
        obtain ⟨locks, hnext, heq⟩ := Option.map_eq_some_iff.mp h
        cases heq
        exact .leave hnext
    | _ => cases progress <;> cases h
  | recording o v =>
    cases a with
    | go =>
      cases h
      exact .record
    | _ => cases h

/-- What can happen at a node: a request comes, a job takes a turn, something happens at the locks, or
the node is told its role. -/
theorem next?_cases (h : t.next? e = some u) :
    (∃ caller id op, e = .request caller id op ∧
      u = { t with jobs := t.jobs ++ [t.receive caller id op] }) ∨
    (∃ n a job job' locks ledger, e = .act n a ∧ t.jobs[n]? = some job ∧
      t.Turn job job' locks ledger ∧ u = { t with ledger, locks, jobs := t.jobs.set n job' }) ∨
    (∃ l locks, e = .locks l ∧ spares t.seats l = true ∧ t.locks.next? l = some locks ∧
      u = { t with locks }) ∨
    (∃ call, e = .role call ∧ u = { t with membership := t.membership.heed call }) := by
  cases e with
  | request caller id op => exact .inl ⟨caller, id, op, rfl, (Option.some.inj h).symm⟩
  | act n a =>
    obtain ⟨job, hjob, hact⟩ := Option.bind_eq_some_iff.mp h
    obtain ⟨⟨job', locks, ledger⟩, hturn, rfl⟩ := Option.map_eq_some_iff.mp hact
    exact .inr (.inl ⟨n, a, job, job', locks, ledger, rfl, hjob, turn_of_act? hturn, rfl⟩)
  | locks l =>
    simp only [next?] at h
    split at h
    next hspares =>
      obtain ⟨locks, hnext, rfl⟩ := Option.map_eq_some_iff.mp h
      exact .inr (.inr (.inl ⟨l, locks, rfl, hspares, hnext, rfl⟩))
    next => cases h
  | role call => exact .inr (.inr (.inr ⟨call, rfl, (Option.some.inj h).symm⟩))

/-! ## What a turn leaves as it is -/

theorem look_cases (t : Traffic) (caller id : String) (cleared : Bool) :
    (∃ b, (t.look caller id cleared).1 = .reading caller id b) ∨
      ∃ outcome, (t.look caller id cleared).1 = .shown caller id outcome := by
  unfold look
  split
  · exact Or.inr ⟨_, rfl⟩
  · split
    · exact Or.inl ⟨_, rfl⟩
    · exact Or.inr ⟨_, rfl⟩

theorem look_store (t : Traffic) (caller id : String) (cleared : Bool) :
    (t.look caller id cleared).2.store = t.store := by
  unfold look
  split
  next => rfl
  next =>
    have hkept : (t.ledger.authorize t.policy caller id .read).2.store = t.ledger.store :=
      Ledger.authorize_store
    split
    next heq => rwa [heq] at hkept
    next heq => rwa [heq] at hkept

namespace Turn

/-- At the locks a turn is a move. -/
theorem moves (h : t.Turn job job' locks ledger) : Moves t.locks job.seat? job'.seat? locks := by
  cases h with
  | @look caller id cleared _ _ hlook =>
    rcases t.look_cases caller id cleared with ⟨b, hjob⟩ | ⟨outcome, hjob⟩ <;>
      rw [hlook] at hjob <;> cases hjob <;> exact .stays
  | claim => exact .claims _ _
  | giveUp hnext hquits hend => rcases hend with rfl | rfl <;> exact .quits hnext hquits
  | enter hholds => exact .enters hholds
  | step | record => exact .stays
  | @leave _ _ outcome _ hnext => cases outcome <;> exact .quits hnext rfl

theorem order (h : t.Turn job job' locks ledger) (ho : job'.order? = some o) :
    job.order? = some o := by
  cases h with
  | @look caller id cleared _ _ hlook =>
    rcases t.look_cases caller id cleared with ⟨b, hjob⟩ | ⟨outcome, hjob⟩ <;>
      rw [hlook] at hjob <;> cases hjob <;> cases ho
  | claim | enter | step | record => exact ho
  | giveUp _ _ hend => rcases hend with rfl | rfl <;> exact ho
  | @leave _ _ outcome _ _ => cases outcome <;> exact ho

/-- The store changes only when an order is executed with a result. -/
theorem store_cases (h : t.Turn job job' locks ledger) :
    ledger.store = t.store ∨ ∃ o k v, job = .working o k (.due .executing) ∧
      job' = .working o k (.ended (.ok v)) ∧
      o.execute (Uuid.ofNat t.ledger.fresh) t.store = (.ok v, ledger.store) := by
  cases h with
  | @look caller id cleared _ _ hlook =>
    left
    rw [← t.look_store caller id cleared, hlook]
  | claim | giveUp | enter | leave | record => exact Or.inl rfl
  | @step o k phase progress _ hstep =>
    cases progress with
    | due next => exact Or.inl (congrArg Ledger.store (Order.advance_due hstep))
    | ended outcome =>
      cases outcome with
      | error f => exact Or.inl (Order.advance_failed hstep)
      | ok v =>
        obtain ⟨rfl, hexecute⟩ := Order.advance_done hstep
        exact Or.inr ⟨o, k, v, rfl, rfl, hexecute⟩

theorem checked (h : t.Turn job job' locks ledger) (hchecked : job.Checked t.policy t.store) :
    job'.Checked t.policy ledger.store := by
  cases h with
  | @look caller id cleared _ _ hlook =>
    rcases t.look_cases caller id cleared with ⟨b, hjob⟩ | ⟨outcome, hjob⟩ <;>
      rw [hlook] at hjob <;> cases hjob <;> trivial
  | claim | enter | record => trivial
  | giveUp _ _ hend => rcases hend with rfl | rfl <;> trivial
  | @step o k phase progress _ hstep =>
    cases progress with
    | ended outcome => trivial
    | due next =>
      obtain rfl := Order.advance_due hstep
      exact Order.Passed.advance hchecked hstep
  | @leave _ _ outcome _ _ => cases outcome <;> trivial

end Turn

/-- The job of a request has no claim yet, and its order is sensible. -/
theorem receive_cases (t : Traffic) (caller id : String) (op : Operation) :
    (t.receive caller id op).seat? = none ∧
      ∀ o, (t.receive caller id op).order? = some o → o.Sensible := by
  unfold receive
  cases htask : op.toTask t.kind caller id with
  | error f => exact ⟨rfl, nofun⟩
  | ok task =>
    simp only
    split
    next => exact ⟨rfl, nofun⟩
    next =>
      cases task with
      | view => exact ⟨rfl, nofun⟩
      | order o =>
        refine ⟨rfl, ?_⟩
        intro o' ho
        cases ho
        exact Order.sensible_of_toTask htask

/-! ## The invariant -/

/-- What holds of a node at any moment. -/
structure Orderly (t : Traffic) : Prop where
  /-- Every job keeps its seat at the locks. -/
  seating : Seating t.seats t.locks
  /-- Every order was looked at before it was admitted. -/
  sensible : ∀ (n : Nat) (job : Job) (o : Order), t.jobs[n]? = some job → job.order? = some o → o.Sensible
  /-- What the steps of every order have found out still holds. -/
  checked : ∀ (n : Nat) (job : Job), t.jobs[n]? = some job → job.Checked t.policy t.store

namespace Orderly

theorem start {kind : String} {policy : Policy} {patience : Time.Duration}
    {membership : Cluster.Membership} {store : Store} {fresh : Nat} :
    (Traffic.start kind policy patience membership store fresh).Orderly := by
  refine ⟨Seating.empty, ?_, ?_⟩
  · intro n job o hn
    rw [start_jobs, List.getElem?_nil] at hn
    cases hn
  · intro n job hn
    rw [start_jobs, List.getElem?_nil] at hn
    cases hn

theorem sound (h : t.Orderly) : t.locks.Sound := h.seating.sound

/-- An order that works holds its lock. -/
theorem held (h : t.Orderly) {progress : Write.Progress (Versioned Inlet)}
    (hn : t.jobs[n]? = some (.working o k progress)) :
    ∃ c, t.locks.claim? k = some c ∧ c.id = o.id ∧ c.stage = .held :=
  h.seating.held (seats_getElem? hn) rfl

/-- Two orders on one inlet never work at the same time. -/
theorem working_unique (h : t.Orderly) {o₁ o₂ : Order} {k₁ k₂ : Nat}
    {p₁ p₂ : Write.Progress (Versioned Inlet)} (hn : t.jobs[n]? = some (.working o₁ k₁ p₁))
    (hm : t.jobs[m]? = some (.working o₂ k₂ p₂)) (hid : o₁.id = o₂.id) : n = m :=
  h.seating.owner_unique (seats_getElem? hn) (seats_getElem? hm) rfl rfl hid

theorem ticket_lt (h : t.Orderly) (hn : t.jobs[n]? = some job) (hk : job.ticket? = some k) :
    k < t.locks.fresh := by
  obtain ⟨s, hs, rfl⟩ := Option.map_eq_some_iff.mp hk
  exact h.seating.ticket_lt ((seats_getElem? hn).trans (congrArg some hs))

/-- No two jobs stand behind one claim. -/
theorem apart (h : t.Orderly) (hn : t.jobs[n]? = some i) (hm : t.jobs[m]? = some j)
    (hi : i.ticket? = some k) (hj : j.ticket? = some k) : n = m := by
  obtain ⟨s, hs, rfl⟩ := Option.map_eq_some_iff.mp hi
  obtain ⟨s', hs', hticket⟩ := Option.map_eq_some_iff.mp hj
  exact h.seating.apart n m s s' ((seats_getElem? hn).trans (congrArg some hs))
    ((seats_getElem? hm).trans (congrArg some hs')) hticket.symm

/-- What the steps of one order have found out is not upset by another job: if that changes an inlet,
it is another one. -/
theorem checked_of_other (h : t.Orderly) (hn : t.jobs[n]? = some job)
    (hturn : t.Turn job job' locks ledger) (hne : m ≠ n) (hm : t.jobs[m]? = some j) :
    j.Checked t.policy ledger.store := by
  have hbefore := h.checked m j hm
  rcases hturn.store_cases with hsame | ⟨o, k, v, rfl, -, hexecute⟩
  · rw [hsame]
    exact hbefore
  · cases j with
    | working o' k' progress =>
      cases progress with
      | due phase =>
        refine hbefore.congr (h.sensible m _ o' hm rfl) (Order.execute_find?_ne hexecute ?_).symm
        intro heq
        exact hne (h.working_unique hm hn heq)
      | ended outcome => trivial
    | _ => trivial

theorem receive (h : t.Orderly) (caller id : String) (op : Operation) :
    Orderly { t with jobs := t.jobs ++ [t.receive caller id op] } := by
  have hold : ∀ {m : Nat} {j : Job}, (t.jobs ++ [t.receive caller id op])[m]? = some j →
      t.jobs[m]? = some j ∨ j = t.receive caller id op := by
    intro m j hm
    rw [List.getElem?_append] at hm
    split at hm
    · exact Or.inl hm
    · exact Or.inr (List.mem_singleton.mp (List.mem_of_getElem? hm))
  obtain ⟨hseat, horder⟩ := t.receive_cases caller id op
  refine ⟨?_, ?_, ?_⟩
  · have hseats : seats { t with jobs := t.jobs ++ [t.receive caller id op] } = t.seats ++ [none] := by
      simp only [seats, List.map_append, List.map_singleton, hseat]
    rw [hseats]
    exact h.seating.concat .stays
  · intro m j o hm ho
    rcases hold hm with hm | rfl
    · exact h.sensible m j o hm ho
    · exact horder o ho
  · intro m j hm
    rcases hold hm with hm | rfl
    · exact h.checked m j hm
    · exact Job.checked_of_seat?_none hseat

/-- A turn of a job leaves a node orderly. -/
theorem turn (h : t.Orderly) (hn : t.jobs[n]? = some job)
    (hturn : t.Turn job job' locks ledger) :
    Orderly { t with ledger, locks, jobs := t.jobs.set n job' } := by
  have hcases : ∀ (m : Nat) (j : Job), (t.jobs.set n job')[m]? = some j →
      (m = n ∧ j = job') ∨ (m ≠ n ∧ t.jobs[m]? = some j) := by
    intro m j hm
    rw [List.getElem?_set] at hm
    split at hm
    next heq =>
      split at hm
      · exact Or.inl ⟨heq.symm, (Option.some.inj hm).symm⟩
      · cases hm
    next hne => exact Or.inr ⟨fun heq => hne heq.symm, hm⟩
  refine ⟨?_, ?_, ?_⟩
  · have hseats : seats { t with ledger, locks, jobs := t.jobs.set n job' } =
        t.seats.set n job'.seat? := List.map_set
    rw [hseats]
    exact h.seating.set (seats_getElem? hn) hturn.moves
  · intro m j o hm ho
    rcases hcases m j hm with ⟨-, rfl⟩ | ⟨-, hold⟩
    · exact h.sensible n job o hn (hturn.order ho)
    · exact h.sensible m j o hold ho
  · intro m j hm
    rcases hcases m j hm with ⟨-, rfl⟩ | ⟨hne, hold⟩
    · exact hturn.checked (h.checked n job hn)
    · exact h.checked_of_other hn hturn hne hold

theorem next (h : t.Orderly) (he : t.next? e = some u) : u.Orderly := by
  rcases next?_cases he with ⟨caller, id, op, -, rfl⟩ | ⟨n, a, job, job', locks, ledger, -, hn,
    hturn, rfl⟩ | ⟨l, locks, -, hspares, hnext, rfl⟩ | ⟨call, -, rfl⟩
  · exact h.receive caller id op
  · exact h.turn hn hturn
  · exact ⟨h.seating.next hspares hnext, h.sensible, h.checked⟩
  · exact ⟨h.seating, h.sensible, h.checked⟩

/-- Every course of events leaves a node orderly. -/
theorem run (h : t.Orderly) (hrun : t.run? events = some u) : u.Orderly :=
  course?_invariant h (fun _ _ _ ht he => ht.next he) hrun

end Orderly

end Traffic

end InletRegistry.Registry
