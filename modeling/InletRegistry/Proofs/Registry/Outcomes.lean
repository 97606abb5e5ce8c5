import InletRegistry.Proofs.Registry.Failing
import InletRegistry.Proofs.Registry.Requests
import InletRegistry.Proofs.Write.Account

/-!
# What a request may fail by

An order whose checks have passed is executed: the claim is compared with the stored version twice,
once as a check and once more by the store, and both comparisons agree as long as nobody else changes
the inlet. So the failures by which the store would turn an order down are out of reach, and a request
fails in the words of its checks alone: `Turndown` are the failures of the checks, and `MayFail` those
of each operation. None of them says that the registry is at fault.
-/

/-! ## What the store turns down -/

namespace InletRegistry.Store

open InletRegistry.Access

variable {s : Store} {policy : Policy} {caller id : String} {action : Action} {f : Failure}

theorem lookup_failure (h : s.lookup id = .error f) : f = missing id := by
  unfold lookup at h
  split at h <;> cases h
  rfl

theorem get_failure (h : s.get id = .error f) : f = missing id := by
  unfold get at h
  split at h
  next => cases h
  next hlookup =>
    cases h
    exact lookup_failure hlookup

/-- Whoever is not let through is denied, or the inlet is not there. -/
theorem authorize_failure (h : s.authorize policy caller id action = .error f) :
    f = missing id ∨ ∃ reason, f = .authorizationDenied reason := by
  unfold authorize resolve at h
  cases hl : s.lookup id with
  | error g =>
    rw [hl] at h
    cases h
    exact Or.inl (lookup_failure hl)
  | ok e =>
    rw [hl] at h
    simp only [Policy.authorize] at h
    split at h <;> cases h
    exact Or.inr ⟨_, rfl⟩

end InletRegistry.Store

namespace InletRegistry.Registry

open InletRegistry.Access InletRegistry.Text InletRegistry.Write

/-- The failures by which the checks of an order may turn it down. -/
inductive Order.Turndown : Failure → Prop where
  | missing {text : String} : Turndown (.notFound text)
  | denied {reason : String} : Turndown (.authorizationDenied reason)
  /-- The inlet is not in a state that allows the change. -/
  | unmet {text : String} : Turndown (.preconditionFailed text)
  | stale {id : String} {expected current : Nat} : Turndown (.staleRevision id expected current)

/-- The failures that an operation may come to. -/
inductive Operation.MayFail : Operation → Failure → Prop where
  | missing {op : Operation} {text : String} : MayFail op (.notFound text)
  | denied {op : Operation} {reason : String} : MayFail op (.authorizationDenied reason)
  | malformed {body : Option UpdateRequest} {text : String} : MayFail (.update body) (.badRequest text)
  /-- A change may not get its lock in time. -/
  | busy {op : Operation} {text : String} (h : op ≠ .get) : MayFail op (.busy text)
  | unmet {op : Operation} {text : String} (h : op ≠ .get) : MayFail op (.preconditionFailed text)
  | stale {op : Operation} {id : String} {expected current : Nat} (h : op ≠ .get) :
    MayFail op (.staleRevision id expected current)

/-- No operation comes to a failure that is the registry's own. -/
theorem Operation.MayFail.status {op : Operation} {f : Failure} (h : op.MayFail f) :
    f.status ≠ 500 := by
  cases h <;> exact Nat.ne_of_beq_eq_false rfl

namespace Order.Turndown

variable {op : Operation} {f : Failure}

theorem mayFail (h : Turndown f) (hop : op ≠ .get) : op.MayFail f := by
  cases h with
  | missing => exact .missing
  | denied => exact .denied
  | unmet => exact .unmet hop
  | stale => exact .stale hop

theorem status (h : Turndown f) : f.status ≠ 500 := by
  cases h <;> exact Nat.ne_of_beq_eq_false rfl

end Order.Turndown

/-! ## The checks -/

/-- A failed verification is that there is no such inlet, or that a precondition does not hold. -/
theorem turndown_asPrecondition (f : Failure) : Order.Turndown (asPrecondition f) := by
  cases f with
  | notFound => exact .missing
  | _ => exact .unmet

namespace Order

variable {o : Order} {policy : Policy} {kind : String} {l l' : Ledger} {phase : Phase} {f : Failure}
  {e : Stored}

theorem authorize_turndown (h : (o.steps policy).authorize l = (.error f, l')) : Turndown f := by
  have hf : l.store.authorize policy o.caller o.id .write = .error f := by
    have heq := congrArg Prod.fst h
    simp only [steps, Ledger.authorize_eq] at heq
    exact heq
  rcases Store.authorize_failure hf with rfl | ⟨reason, rfl⟩
  · exact .missing
  · exact .denied

theorem checkRevision_turndown
    (h : (o.steps policy).checkRevision o.revision l = (.error f, l')) : Turndown f := by
  unfold Steps.checkRevision at h
  split at h
  next => cases h
  next =>
    split at h
    next hmissing =>
      cases h
      have hf := congrArg Prod.fst hmissing
      simp only [steps, Store.currentVersion] at hf
      split at hf
      next => cases hf
      next hlookup =>
        cases hf
        rw [Store.lookup_failure hlookup]
        exact .missing
    next =>
      split at h <;> cases h
      exact .stale

/-- **The two comparisons agree.** The check of a claim passes exactly where the store would carry the
change out. -/
theorem checkRevision_ok_iff (he : l.store.find? o.id = some e) :
    ((o.steps policy).checkRevision o.revision l).1 = .ok () ↔
      l.store.claimed o.revision o.id = .ok e := by
  rw [Store.claimed_eq_ok]
  constructor
  · intro h
    exact ⟨he, holdsAt_of_checkRevision he (Prod.ext h checkRevision_ledger)⟩
  · rintro ⟨-, hholds⟩
    unfold Steps.checkRevision
    split
    next => rfl
    next expected hversion =>
      have hsame : expected = e.version := (Revision.holdsAt_iff_of_version hversion _).mp hholds
      simp only [steps, Store.currentVersion, Store.lookup_of_find? he, hsame, ↓reduceIte]

/-- A step that ends an order with a failure is one of its checks: the last step does not fail. -/
theorem advance_turndown (hp : o.Passed policy l.store phase)
    (h : (o.steps policy).advance o.revision l phase = (.ended (.error f), l')) : Turndown f := by
  cases phase with
  | authorizing =>
    simp only [Steps.advance] at h
    split at h
    next hdenied =>
      obtain ⟨hf, -⟩ := Prod.mk.inj h
      rw [← Except.error.inj (Progress.ended.inj hf)]
      exact authorize_turndown hdenied
    next => cases h
  | verifying =>
    simp only [Steps.advance] at h
    split at h
    next g _ _ =>
      obtain ⟨hf, -⟩ := Prod.mk.inj h
      rw [← Except.error.inj (Progress.ended.inj hf)]
      exact turndown_asPrecondition g
    next => cases h
  | checking =>
    simp only [Steps.advance] at h
    split at h
    next hstale =>
      obtain ⟨hf, -⟩ := Prod.mk.inj h
      rw [← Except.error.inj (Progress.ended.inj hf)]
      exact checkRevision_turndown hstale
    next => cases h
  | executing =>
    obtain ⟨v, hv⟩ := execute_of_passed hp (Uuid.ofNat l.fresh)
    have hf := Progress.ended.inj (Prod.mk.inj h).1
    rw [show (o.execute (Uuid.ofNat l.fresh) l.store).1 = .error f from hf] at hv
    cases hv

/-- How an order stands that has come so far while nobody else acts: what has been found out holds, and
if it has failed, a check has turned it down. -/
def Standing (policy : Policy) (o : Order) : Write.Progress (Versioned Inlet) × Ledger → Prop
  | (.due phase, l) => o.Passed policy l.store phase
  | (.ended (.error f), _) => Turndown f
  | (.ended (.ok _), _) => True

theorem Standing.goOn {x : Write.Progress (Versioned Inlet) × Ledger} (h : o.Standing policy x) :
    o.Standing policy ((o.steps policy).goOn o.revision x) := by
  obtain ⟨progress, l⟩ := x
  cases progress with
  | ended result => exact h
  | due phase =>
    show o.Standing policy ((o.steps policy).advance o.revision l phase)
    cases hstep : (o.steps policy).advance o.revision l phase with
    | mk progress l' =>
      cases progress with
      | due next =>
        obtain rfl := advance_due hstep
        exact Passed.advance h hstep
      | ended result =>
        cases result with
        | error f => exact advance_turndown h hstep
        | ok v => trivial

/-- An order that is carried out at once fails by its checks alone. -/
theorem run_turndown (h : (o.steps policy).run o.revision l = (.error f, l')) : Turndown f := by
  have hstanding : ∀ m, o.Standing policy (((o.steps policy).goOn o.revision)^[m] (.due .authorizing, l)) := by
    intro m
    induction m with
    | zero => trivial
    | succ m ih =>
      rw [Function.iterate_succ_apply']
      exact ih.goOn
  have hfour := hstanding 4
  rw [Steps.goOn_four, h] at hfour
  exact hfour

theorem carryOut_turndown (h : o.carryOut kind policy l = (.error f, l')) : Turndown f := by
  unfold carryOut at h
  split at h
  next hfailed =>
    obtain ⟨hf, -⟩ := Prod.mk.inj h
    rw [← Except.error.inj hf]
    exact run_turndown hfailed
  next => cases h

end Order

/-- A request that is turned down on its own is malformed. -/
theorem Operation.badRequest_of_toTask {op : Operation} {kind caller id : String} {f : Failure}
    (h : op.toTask kind caller id = .error f) : ∃ text, f = .badRequest text := by
  unfold Operation.toTask at h
  split at h
  next => cases h
  next =>
    split at h <;> cases h
    exact ⟨_, rfl⟩
  next => cases h

/-- Only an update can be malformed. -/
theorem Operation.mayFail_of_toTask {op : Operation} {kind caller id : String} {f : Failure}
    (h : op.toTask kind caller id = .error f) : op.MayFail f := by
  obtain ⟨text, rfl⟩ := Operation.badRequest_of_toTask h
  cases op with
  | update => exact .malformed
  | _ => cases h

/-! ## Every request -/

/-- The failure that a job has come to. -/
def Job.failure? : Job → Option Failure
  | refused f => some f
  | shown _ _ (.error f) => some f
  | working _ _ (.ended (.error f)) => some f
  | answered _ (.error f) => some f
  | _ => none

/-- An answer that is a failure is the one that the job has come to. -/
theorem Job.failure?_of_outcome {job : Job} {f : Failure} (h : job.outcome? = some (.error f)) :
    job.failure? = some f := by
  unfold outcome? at h
  split at h <;> cases h <;> rfl

theorem Inquiry.op_ne_get {q : Inquiry} {kind : String} {o : Order}
    (h : q.task kind = .ok (.order o)) : q.op ≠ .get := by
  obtain ⟨-, -, hop⟩ := Inquiry.order_of_task h
  rcases hop with ⟨_, _, hop, -⟩ | ⟨_, _, hop, -⟩ <;>
  · rw [hop]
    exact nofun

namespace Traffic

variable {t u : Traffic} {events : List Event} {n : Nat} {q : Inquiry} {job job' : Job}
  {locks : LockTable} {ledger : Ledger} {f : Failure}

theorem look_failure {caller id : String} {cleared : Bool}
    (h : (t.look caller id cleared).1.failure? = some f) : q.op.MayFail f := by
  unfold look at h
  split at h
  next =>
    cases hget : t.store.get id with
    | ok v =>
      rw [hget] at h
      cases h
    | error g =>
      rw [hget] at h
      cases h
      rw [Store.get_failure hget]
      exact .missing
  next =>
    split at h
    next => cases h
    next hauthorize =>
      cases h
      have hf := congrArg Prod.fst hauthorize
      rw [Ledger.authorize_eq] at hf
      rcases Store.authorize_failure hf with rfl | ⟨reason, rfl⟩
      · exact .missing
      · exact .denied

/-- A turn brings a job to no failure but one that its operation may come to. -/
theorem Turn.failure (h : t.Turn job job' locks ledger) (hchecked : job.Checked t.policy t.store)
    {kind : String} (hq : job.Concerns kind q) (hold : ∀ f, job.failure? = some f → q.op.MayFail f)
    (hf : job'.failure? = some f) : q.op.MayFail f := by
  cases h with
  | @look caller id cleared _ _ hlook =>
    rw [show job' = (t.look caller id cleared).1 by rw [hlook]] at hf
    exact look_failure hf
  | claim | enter | record => cases hf
  | giveUp _ _ hend =>
    rcases hend with rfl | rfl <;> cases hf
    exact .busy (Inquiry.op_ne_get hq)
  | @step o k phase progress _ hstep =>
    cases progress with
    | due next => cases hf
    | ended outcome =>
      cases outcome with
      | ok v => cases hf
      | error g =>
        cases hf
        exact (Order.advance_turndown hchecked hstep).mayFail (Inquiry.op_ne_get hq)
  | @leave o k outcome _ _ =>
    cases outcome with
    | ok v => cases hf
    | error g =>
      cases hf
      exact hold _ rfl

theorem receive_failure (t : Traffic) (q : Inquiry)
    (hf : (t.receive q.caller q.id q.op).failure? = some f) : q.op.MayFail f := by
  unfold receive at hf
  cases htask : q.op.toTask t.kind q.caller q.id with
  | error g =>
    rw [htask] at hf
    cases hf
    exact Operation.mayFail_of_toTask htask
  | ok task =>
    simp only [htask] at hf
    split at hf
    next => cases hf
    next => cases task <;> cases hf

/-- Whatever requests fail by, their operations may come to. -/
theorem run?_failures (horderly : t.Orderly) (hjobs : t.jobs = []) (h : t.run? events = some u) :
    List.Forall₂ (fun q job => ∀ f, job.failure? = some f → q.op.MayFail f) (requests events)
      u.jobs := by
  refine List.Forall₂.imp (fun _ _ hboth => hboth.2) (run?_each (P := fun q job =>
    job.Concerns t.kind q ∧ ∀ f, job.failure? = some f → q.op.MayFail f) horderly hjobs ?_ ?_ h)
  · intro s caller id op hkind
    rw [← hkind]
    exact ⟨s.receive_concerns ⟨caller, id, op⟩, fun f hf => s.receive_failure ⟨caller, id, op⟩ hf⟩
  · rintro s n q job job' locks ledger hs - hn hstep ⟨hq, hold⟩
    exact ⟨hstep.concerns hq, fun f hf => hstep.failure (hs.checked n job hn) hq hold hf⟩

/-- An order that is about to be executed will be, whatever has happened since its checks. -/
theorem Orderly.executes (h : t.Orderly) {o : Order} {k : Nat}
    (hn : t.jobs[n]? = some (.working o k (.due .executing))) (fresh : String) :
    ∃ v, (o.execute fresh t.store).1 = .ok v :=
  Order.execute_of_passed (h.checked n _ hn) fresh

end Traffic

end InletRegistry.Registry
