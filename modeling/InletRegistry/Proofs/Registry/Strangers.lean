import InletRegistry.Proofs.Registry.Outcomes

/-!
# What strangers are told

A stranger to an inlet is a caller whom no grant gives what the operation needs. The grants are asked
before anything else is looked at, so no function of the store that gives, compares or changes an inlet
is ever due for the job of a stranger (`Turn.barred`): the job ends by a rebuff, and which one is
settled by whether the inlet is there and the lock is had in time. `Barred` says so of one node.
-/

namespace InletRegistry.Registry

open InletRegistry.Access InletRegistry.Locks InletRegistry.Time InletRegistry.Write

/-- What an operation needs to be given. -/
def Operation.action : Operation → Action
  | get => .read
  | update _ => .write
  | delete _ _ => .write

namespace Inquiry

/-- Whether the grants give a caller what is needed for the request. -/
def isEntitled (policy : Policy) (q : Inquiry) : Bool :=
  policy.allows q.caller (Store.resourceName q.id) q.op.action

/-- What a stranger is told when it comes to that. -/
def verdict (q : Inquiry) (present : Bool) : Failure :=
  if present then
    .authorizationDenied (Policy.denial q.caller (Store.resourceName q.id) q.op.action)
  else Store.missing q.id

/-- All that a stranger may be told. -/
inductive Rebuff (kind : String) (patience : Duration) (q : Inquiry) : Failure → Prop where
  /-- The request is malformed, whatever the state of the registry. -/
  | malformed {f : Failure} (h : q.task kind = .error f) : Rebuff kind patience q f
  /-- A change did not get its lock in time. -/
  | busy (h : q.op ≠ .get) : Rebuff kind patience q (LockTable.busy q.id patience)
  | verdict (present : Bool) : Rebuff kind patience q (q.verdict present)

/-- The grants say no to a stranger wherever they are asked. -/
theorem authorize_of_stranger {policy : Policy} {q : Inquiry} (h : q.isEntitled policy = false)
    (s : Store) : s.authorize policy q.caller q.id q.op.action =
      .error (q.verdict (s.find? q.id).isSome) := by
  have hdenied : policy.allows q.caller (Store.resourceName q.id) q.op.action = false := h
  unfold Store.authorize Store.resolve Store.lookup
  cases s.find? q.id with
  | none => rfl
  | some e =>
    simp only [Policy.authorize, hdenied]
    rfl

/-- A read needs to be allowed to read. -/
theorem action_of_view {kind caller id : String} {q : Inquiry}
    (h : q.task kind = .ok (.view caller id)) : q.op.action = .read := by
  rw [(view_of_task h).1]
  rfl

/-- A change needs to be allowed to write. -/
theorem action_of_order {kind : String} {q : Inquiry} {o : Order}
    (h : q.task kind = .ok (.order o)) : q.op.action = .write := by
  obtain ⟨-, -, ⟨body, p, hop, -⟩ | ⟨version, clientId, hop, -⟩⟩ := order_of_task h <;>
  · rw [hop]
    rfl

end Inquiry

/-! ## What is due for a job -/

/-- A function of the store that gives, compares or changes what an inlet is like. -/
inductive StoreCall where
  | get
  | verifyUpdate
  | verifyDelete
  | currentVersion
  | update
  | delete
  deriving DecidableEq, Repr

namespace Job

/-- The function of the store that a job would call in its next step, other than to look a name up. -/
def call? : Job → Option StoreCall
  | reading _ _ true => some .get
  | working o _ (.due .verifying) =>
    match o.change with
    | .update _ => some .verifyUpdate
    | .delete => some .verifyDelete
  | working o _ (.due .checking) => o.revision.version.map fun _ => .currentVersion
  | working o _ (.due .executing) =>
    match o.change with
    | .update _ => some .update
    | .delete => some .delete
  | _ => none

/-- The job of a stranger's request: nobody has let it through, and if it has come to an end, then by a
rebuff. -/
def Barred (patience : Duration) (q : Inquiry) : Job → Prop
  | reading _ _ cleared => cleared = false
  | shown _ _ outcome => ∃ present, outcome = .error (q.verdict present)
  | working _ _ (.due phase) => phase = .authorizing
  | working _ _ (.ended outcome) => ∃ present, outcome = .error (q.verdict present)
  | recording _ _ => False
  | answered _ outcome =>
    outcome = .error (LockTable.busy q.id patience) ∨ ∃ present, outcome = .error (q.verdict present)
  | refused _ | sentOn | admitted _ | queued _ _ | dropped _ => True

namespace Barred

variable {patience : Duration} {q : Inquiry} {job : Job}

/-- Nothing is due at the store for a job that has not been let through. -/
theorem call?_eq_none (h : job.Barred patience q) : job.call? = none := by
  cases job with
  | reading caller id cleared =>
    rw [show cleared = false from h]
    rfl
  | working o k progress =>
    cases progress with
    | due phase =>
      rw [show phase = .authorizing from h]
      rfl
    | ended outcome => rfl
  | _ => rfl

/-- Whatever a stranger is told is a rebuff. -/
theorem rebuff {kind : String} {outcome : Outcome} (h : job.Barred patience q)
    (hq : job.Concerns kind q) (hout : job.outcome? = some outcome) :
    ∃ f, outcome = .error f ∧ q.Rebuff kind patience f := by
  cases job with
  | refused f =>
    cases hout
    exact ⟨f, rfl, .malformed hq⟩
  | shown caller id outcome =>
    cases hout
    obtain ⟨present, rfl⟩ := h
    exact ⟨_, rfl, .verdict present⟩
  | answered o outcome =>
    cases hout
    rcases h with rfl | ⟨present, rfl⟩
    · exact ⟨_, rfl, .busy (Inquiry.op_ne_get hq)⟩
    · exact ⟨_, rfl, .verdict present⟩
  | _ => cases hout

end Barred

end Job

namespace Traffic

variable {t u : Traffic} {q : Inquiry} {i j i' j' job job' : Job} {a : Act} {n m : Nat}
  {locks locks' : LockTable} {ledger ledger' : Ledger} {e : Event} {events : List Event}

/-! ## One node -/

/-- The first look at a read says whether the caller is let through. -/
theorem look_uncleared (t : Traffic) (caller id : String) : (t.look caller id false).1 =
    match t.store.authorize t.policy caller id .read with
    | .ok () => .reading caller id true
    | .error f => .shown caller id (.error f) := by
  simp only [look, Bool.false_eq_true, ↓reduceIte, Ledger.authorize_eq]
  cases hallowed : t.ledger.store.authorize t.policy caller id .read <;>
    simp only [store, hallowed]

/-- The first step of an order says whether the caller is let through. -/
theorem advance_authorizing (t : Traffic) (o : Order) :
    ((o.steps t.policy).advance o.revision t.ledger .authorizing).1 =
      match t.store.authorize t.policy o.caller o.id .write with
      | .ok () => .due .verifying
      | .error f => .ended (.error f) := by
  have hstep : (o.steps t.policy).authorize t.ledger = _ :=
    Ledger.authorize_eq t.ledger t.policy o.caller o.id .write
  simp only [Steps.advance, hstep]
  cases hallowed : t.ledger.store.authorize t.policy o.caller o.id .write <;>
    simp only [store, hallowed]

/-- What the first look shows a stranger. -/
theorem look_stranger {caller id : String} (hq : q.task t.kind = .ok (.view caller id))
    (hstranger : q.isEntitled t.policy = false) : (t.look caller id false).1 =
      .shown caller id (.error (q.verdict (t.store.find? q.id).isSome)) := by
  have hdenied := Inquiry.authorize_of_stranger hstranger t.store
  obtain ⟨-, rfl, rfl⟩ := Inquiry.view_of_task hq
  rw [look_uncleared, ← Inquiry.action_of_view hq, hdenied]

/-- What the first step of a stranger's order comes to. -/
theorem advance_stranger {o : Order} (hq : q.task t.kind = .ok (.order o))
    (hstranger : q.isEntitled t.policy = false) :
    ((o.steps t.policy).advance o.revision t.ledger .authorizing).1 =
      .ended (.error (q.verdict (t.store.find? q.id).isSome)) := by
  have hdenied := Inquiry.authorize_of_stranger hstranger t.store
  obtain ⟨hcaller, hid, -⟩ := Inquiry.order_of_task hq
  rw [advance_authorizing, hcaller, hid, ← Inquiry.action_of_order hq, hdenied]

/-- Whatever a stranger's job does, it is not let through. -/
theorem Turn.barred (h : t.Turn job job' locks ledger) (hq : job.Concerns t.kind q)
    (hstranger : q.isEntitled t.policy = false) (hbarred : job.Barred t.patience q) :
    job'.Barred t.patience q := by
  cases h with
  | @look caller id cleared _ _ hlook =>
    obtain rfl : cleared = false := hbarred
    rw [show job' = (t.look caller id false).1 by rw [hlook], look_stranger hq hstranger]
    exact ⟨_, rfl⟩
  | claim => trivial
  | @giveUp o k _ _ _ _ _ hend =>
    rcases hend with rfl | rfl
    · rw [(Inquiry.order_of_task hq).2.1]
      exact Or.inl rfl
    · trivial
  | enter => exact rfl
  | @step o k phase progress _ hstep =>
    obtain rfl : phase = .authorizing := hbarred
    obtain rfl := (congrArg Prod.fst hstep).symm.trans (advance_stranger hq hstranger)
    exact ⟨_, rfl⟩
  | @leave o k outcome _ _ =>
    obtain ⟨present, rfl⟩ := hbarred
    exact Or.inr ⟨present, rfl⟩
  | record => exact hbarred.elim

/-- What a stranger is told is settled by whether the inlet is there, unless its time is up. -/
theorem act?_judged (h : t.act? job a = some (job', locks, ledger)) (hq : job.Concerns t.kind q)
    (hstranger : q.isEntitled t.policy = false) (hbarred : job.Barred t.patience q)
    (hbefore : job.failure? = none) {f : Failure} (hf : job'.failure? = some f) :
    f = q.verdict (t.store.find? q.id).isSome ∨
      a = .lapse ∧ f = LockTable.busy q.id t.patience := by
  cases job with
  | reading caller id cleared =>
    obtain rfl : cleared = false := hbarred
    cases a with
    | go =>
      obtain rfl : (t.look caller id false).1 = job' := congrArg Prod.fst (Option.some.inj h)
      rw [look_stranger hq hstranger] at hf
      exact Or.inl (Option.some.inj hf).symm
    | _ => cases h
  | admitted o =>
    cases a with
    | go =>
      cases h
      cases hf
    | _ => cases h
  | queued o k =>
    cases a with
    | go =>
      simp only [act?] at h
      split at h <;> cases h
      cases hf
    | lapse =>
      obtain ⟨_, -, heq⟩ := Option.map_eq_some_iff.mp h
      cases heq
      rw [(Inquiry.order_of_task hq).2.1] at hf
      exact Or.inr ⟨rfl, (Option.some.inj hf).symm⟩
    | drop =>
      obtain ⟨_, -, heq⟩ := Option.map_eq_some_iff.mp h
      cases heq
      cases hf
  | working o k progress =>
    cases progress with
    | due phase =>
      obtain rfl : phase = .authorizing := hbarred
      cases a with
      | go =>
        obtain rfl : .working o k ((o.steps t.policy).advance o.revision t.ledger .authorizing).1 =
          job' := congrArg Prod.fst (Option.some.inj h)
        rw [advance_stranger hq hstranger] at hf
        exact Or.inl (Option.some.inj hf).symm
      | _ => cases h
    | ended outcome =>
      obtain ⟨present, rfl⟩ := hbarred
      cases hbefore
  | recording => exact hbarred.elim
  | refused | sentOn | shown | answered | dropped => cases h

/-- A job that is not over goes on, unless it waits for its lock. -/
theorem Orderly.goes_on (ht : t.Orderly) (hn : t.jobs[n]? = some job) : job.isOver = true ∨
    (t.act? job .go).isSome = true ∨ ∃ o k, job = .queued o k ∧ t.locks.holds k = false := by
  cases job with
  | queued o k =>
    cases hholds : t.locks.holds k with
    | true =>
      refine Or.inr (Or.inl ?_)
      simp only [act?, hholds, ↓reduceIte, Option.isSome_some]
    | false => exact Or.inr (Or.inr ⟨o, k, rfl, hholds⟩)
  | working o k progress =>
    refine Or.inr (Or.inl ?_)
    cases progress with
    | due phase => rfl
    | ended outcome =>
      obtain ⟨c, hc, -, hheld⟩ := ht.held hn
      have hplace : t.locks.claimAt? k (· = .held) = some c :=
        LockTable.claimAt?_eq_some.mpr ⟨hc, decide_eq_true hheld⟩
      simp only [act?, LockTable.next?, hplace, Option.map_some, Option.isSome_some]
  | reading | admitted | recording => exact Or.inr (Or.inl rfl)
  | refused | sentOn | shown | answered | dropped => exact Or.inl rfl

/-- What a stranger's request comes to at a node, the request being the one of a certain number. -/
structure Barred (q : Inquiry) (t : Traffic) (n : Nat) : Prop where
  /-- Whatever the stranger is told is a rebuff. -/
  told : ∀ job outcome, t.jobs[n]? = some job → job.outcome? = some outcome →
    ∃ f, outcome = .error f ∧ q.Rebuff t.kind t.patience f
  /-- The rebuff says whether the inlet is there, unless the request did not get its lock in time. -/
  judged : ∀ a u i j f, t.next? (.act n a) = some u → t.jobs[n]? = some i → u.jobs[n]? = some j →
    i.failure? = none → j.failure? = some f →
      f = q.verdict (t.store.find? q.id).isSome ∨ a = .lapse ∧ f = LockTable.busy q.id t.patience
  /-- No function that gives, compares or changes what is stored is ever called. -/
  uncalled : ∀ job, t.jobs[n]? = some job → job.call? = none
  /-- Whatever the request does, the store stays as it is. -/
  kept : ∀ a u, t.next? (.act n a) = some u → u.store = t.store
  /-- The request goes on to its end, once it need not wait for its lock. -/
  ends : ∀ job, t.jobs[n]? = some job → job.isOver = true ∨
    (t.next? (.act n .go)).isSome = true ∨ ∃ o k, job = .queued o k ∧ t.locks.holds k = false

/-- The node after a turn of one of its jobs. -/
theorem next?_act (h : t.next? (.act n a) = some u) (hn : t.jobs[n]? = some job) :
    ∃ job', u.jobs[n]? = some job' ∧ t.act? job a = some (job', u.locks, u.ledger) := by
  obtain ⟨i, hi, hact⟩ := Option.bind_eq_some_iff.mp h
  obtain rfl := Option.some.inj (hn.symm.trans hi)
  obtain ⟨⟨job', locks, ledger⟩, hturn, rfl⟩ := Option.map_eq_some_iff.mp hact
  refine ⟨job', ?_, hturn⟩
  exact List.getElem?_set_self (List.getElem?_eq_some_iff.mp hn).choose

theorem next?_act_isSome (hn : t.jobs[n]? = some job) :
    (t.next? (.act n a)).isSome = (t.act? job a).isSome := by
  simp only [next?, hn, Option.bind_some, Option.isSome_map]

theorem barred_of_job (ht : t.Orderly) (hn : t.jobs[n]? = some job) (hq : job.Concerns t.kind q)
    (hstranger : q.isEntitled t.policy = false) (hbarred : job.Barred t.patience q) :
    t.Barred q n := by
  refine ⟨?_, ?_, ?_, ?_, ?_⟩
  · intro i outcome hi hout
    obtain rfl := Option.some.inj (hn.symm.trans hi)
    exact hbarred.rebuff hq hout
  · intro a u i j f he hi hj hbefore hf
    obtain rfl := Option.some.inj (hn.symm.trans hi)
    obtain ⟨job', hjob', hact⟩ := next?_act he hn
    obtain rfl := Option.some.inj (hjob'.symm.trans hj)
    exact act?_judged hact hq hstranger hbarred hbefore hf
  · intro i hi
    obtain rfl := Option.some.inj (hn.symm.trans hi)
    exact hbarred.call?_eq_none
  · intro a u he
    obtain ⟨job', -, hact⟩ := next?_act he hn
    rcases (turn_of_act? hact).store_cases with hkept | ⟨o, k, v, rfl, -, -⟩
    · exact hkept
    · cases (hbarred : Phase.executing = .authorizing)
  · intro i hi
    obtain rfl := Option.some.inj (hn.symm.trans hi)
    rw [next?_act_isSome hn]
    exact ht.goes_on hn

end Traffic

end InletRegistry.Registry
