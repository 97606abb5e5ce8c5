import InletRegistry.Proofs.Node.Location
import InletRegistry.Proofs.Node.Reception
import InletRegistry.Proofs.Registry.Outcomes
import InletRegistry.Proofs.Registry.Serial

/-!
# No fault of the node's own

A node with a valid configuration never answers that it is at fault when it carries a request out
itself. What it turns down by itself is the client's business; the one exception, callers whom it could
not tell apart for want of a secret, a valid configuration excludes. What its service comes to is a
result, or a failure that the operation may come to.

A node that hands a request on answers with what the coordinator said, of which nothing is said here.
-/

namespace InletRegistry

open InletRegistry.Http InletRegistry.Registry InletRegistry.Locks InletRegistry.Time
  InletRegistry.Text InletRegistry.Cluster InletRegistry.Access

/-! ## The service -/

namespace Registry

variable {l : Ledger} {s : Service} {policy : Policy} {caller id : String} {f : Failure} {task : Task}
  {now k : Nat} {o : Order}

theorem Ledger.get_status (h : (l.get policy caller id).1 = .error f) : f.status ≠ 500 := by
  have hmissing : (Store.missing id).status ≠ 500 := Nat.ne_of_beq_eq_false rfl
  unfold Ledger.get at h
  rw [Ledger.authorize_eq] at h
  cases hauthorize : l.store.authorize policy caller id .read with
  | error g =>
    rw [hauthorize] at h
    cases h
    rcases Store.authorize_failure hauthorize with rfl | ⟨reason, rfl⟩
    · exact hmissing
    · exact Nat.ne_of_beq_eq_false rfl
  | ok u =>
    rw [hauthorize] at h
    rw [Store.get_failure h]
    exact hmissing

namespace Service

theorem carry_status (h : (s.carry o).1 = .error f) : f.status ≠ 500 :=
  (Order.carryOut_turndown (Prod.ext h rfl)).status

/-- Whatever a task comes to at once, the service is not at fault. -/
theorem start?_status (h : (s.start? now task).1 = .ok (.error f)) : f.status ≠ 500 := by
  cases task with
  | view caller id => exact Ledger.get_status (Except.ok.inj h)
  | order o =>
    simp only [start?, submit_eq] at h
    split at h
    next => exact carry_status (Except.ok.inj h)
    next => cases h

theorem resume_status (h : (s.resume k).1 = some (.error f)) : f.status ≠ 500 := by
  simp only [resume] at h
  split at h
  next o _ =>
    split at h
    next => exact carry_status (o := o) (Option.some.inj h)
    next => cases h
  next => cases h

theorem expire_status (h : (s.expire k).1 = some (.error f)) : f.status ≠ 500 := by
  unfold expire at h
  split at h
  next =>
    cases h
    exact Nat.ne_of_beq_eq_false rfl
  next => cases h

end Service

end Registry

/-! ## The node -/

namespace Node

variable {n : Node} {c : Config} {now : Nat} {r : Request} {answer : Response}

/-- A node with a valid configuration can tell its callers apart. -/
theorem canTellCallers (hvalid : c.validate = .ok ()) (hauth : n.auth = c.auth) :
    n.CanTellCallers := by
  intro henabled hnone
  rw [hauth] at henabled hnone
  have hflaw : c.flaw? ≠ none := by
    unfold Config.flaw?
    split
    · exact nofun
    · split
      · exact nofun
      · rw [if_pos ⟨henabled, hnone⟩]
        exact nofun
  unfold Config.validate at hvalid
  split at hvalid
  next => cases hvalid
  next hsound => exact hflaw hsound

/-- What a node answers by itself is no fault of its own. -/
theorem assess_faultless (hn : n.CanTellCallers) (h : n.assess now r = .error answer) :
    answer.status ≠ 500 := by
  rcases assess_status h with hlisted | ⟨-, hcannot⟩
  · intro hfault
    rw [hfault] at hlisted
    exact absurd hlisted (by decide)
  · exact absurd hn hcannot

/-- An outcome is answered with a fault of the node only if the failure is one. -/
theorem respond_faultless {outcome : Registry.Outcome}
    (h : ∀ f, outcome = .error f → f.status ≠ 500) : (n.respond outcome).status ≠ 500 := by
  cases outcome with
  | ok v =>
    show (n.sign _).status ≠ 500
    rw [sign_status]
    exact Nat.ne_of_beq_eq_false rfl
  | error f =>
    show (n.sign _).status ≠ 500
    rw [sign_status]
    exact h f rfl

end Node

/-! ## Requests one after another -/

namespace Reception

variable {t u : Reception} {e : Event} {events : List Event} {now k : Nat} {r : Request}

/-- The status with which a call was answered. -/
def Call.status? : Call → Option Nat
  | answered response => some response.status
  | _ => none

/-- What holds of a node that carries its requests out itself and has answered none with a fault of its
own. -/
structure Faultless (t : Reception) : Prop where
  tells : t.node.CanTellCallers
  executes : t.node.membership.mustForward = false
  calls : ∀ call ∈ t.calls, call.status? ≠ some 500

namespace Faultless

theorem take (h : t.Faultless) (now : Nat) (r : Request) : (t.take now r).Faultless := by
  rw [take_eq h.executes]
  refine ⟨h.tells, h.executes, ?_⟩
  intro call hcall
  rcases List.mem_append.mp hcall with hold | hnew
  · exact h.calls call hold
  · rw [List.mem_singleton.mp hnew]
    cases hassess : t.node.assess now r with
    | error answer =>
      rw [reaction_of_error hassess]
      simp only [callOf, Call.status?, Visit.conclude_status, ne_eq, Option.some.injEq]
      exact Node.assess_faultless h.tells hassess
    | ok task =>
      rw [reaction_of_task hassess]
      cases hstart : (t.node.skipId.service.start? now task).1 with
      | error ticket =>
        intro hstatus
        cases hstatus
      | ok outcome =>
        simp only [callOf, Call.status?, Visit.conclude_status, ne_eq, Option.some.injEq]
        refine Node.respond_faultless ?_
        rintro f rfl
        exact Service.start?_status hstart

/-- An action of the service that is not at fault brings no call to such an end. -/
theorem proceed (h : t.Faultless) {action : Service → Option Registry.Outcome × Service}
    (haction : ∀ f, (action t.service).1 = some (.error f) → f.status ≠ 500) (k : Nat) :
    (t.proceed k action).Faultless := by
  rw [proceed_eq]
  refine ⟨h.tells, h.executes, ?_⟩
  intro call hcall
  obtain ⟨old, hold, rfl⟩ := List.mem_map.mp hcall
  have hbefore := h.calls old hold
  cases houtcome : (action t.service).1 with
  | none => exact hbefore
  | some outcome =>
    cases old with
    | waiting ticket visit =>
      simp only [endedBy, Call.ended]
      split
      · simp only [Call.status?, Visit.conclude_status, ne_eq, Option.some.injEq]
        refine Node.respond_faultless ?_
        rintro f rfl
        exact haction f houtcome
      · intro hstatus
        cases hstatus
    | _ => exact hbefore

/-- A call that is dropped is not answered. -/
theorem cancel (h : t.Faultless) (k : Nat) :
    Faultless { t.onService (·.cancel k) with calls := t.calls.map (.ended k fun _ => .dropped) } := by
  refine ⟨h.tells, h.executes, ?_⟩
  intro call hcall
  obtain ⟨old, hold, rfl⟩ := List.mem_map.mp hcall
  cases old with
  | waiting ticket visit =>
    simp only [Call.ended]
    split <;> intro hstatus <;> cases hstatus
  | _ => exact h.calls _ hold

theorem next (h : t.Faultless) (he : t.next? e = some u) : u.Faultless := by
  rcases next_cases he with ⟨c, -, -, rfl⟩ | ⟨-, he⟩
  · exact h.proceed (fun f => Service.resume_status) c.ticket
  · cases e with
    | request now r =>
      obtain rfl := Option.some.inj he
      exact h.take now r
    | resume => cases he
    | expire k =>
      obtain ⟨c, -, rfl⟩ := Option.map_eq_some_iff.mp he
      exact h.proceed (fun f => Service.expire_status) k
    | cancel k =>
      obtain ⟨c, -, rfl⟩ := Option.map_eq_some_iff.mp he
      exact h.cancel k
    | hold | pass =>
      obtain rfl := Option.some.inj he
      exact ⟨h.tells, h.executes, h.calls⟩
    | release k =>
      obtain ⟨c, -, rfl⟩ := Option.map_eq_some_iff.mp he
      exact ⟨h.tells, h.executes, h.calls⟩

theorem run (h : t.Faultless) (hrun : t.run? events = some u) : u.Faultless :=
  course?_invariant h (fun _ _ _ ht he => ht.next he) hrun

end Faultless

end Reception

/-! ## Requests side by side -/

namespace Registry.Traffic

variable {t : Traffic} {events : List Event}

/-- What requests side by side may come to, and what a node answers to them. -/
structure Unfailing (asked : List Inquiry) (t : Traffic) (n : Node) : Prop where
  /-- The check of a claim passes exactly where the store would carry the change out. -/
  agree : ∀ (o : Order) (e : Stored), t.store.find? o.id = some e →
    (((o.steps t.policy).checkRevision o.revision t.ledger).1 = .ok () ↔
      t.store.claimed o.revision o.id = .ok e)
  /-- Whatever happened since its checks have passed, an order that is due for execution is executed. -/
  executes : ∀ (i : Nat) (o : Order) (k : Nat), t.jobs[i]? = some (.working o k (.due .executing)) →
    ∃ v, (o.execute (Uuid.ofNat t.ledger.fresh) t.store).1 = .ok v
  /-- Every request fails by a failure that its operation may come to. -/
  failures : List.Forall₂ (fun q job => ∀ f, job.outcome? = some (.error f) → q.op.MayFail f) asked t.jobs
  /-- The node answers none of them with a fault of its own, -/
  answered : ∀ job ∈ t.jobs, ∀ outcome, job.outcome? = some outcome →
    (n.respond outcome).status ≠ 500
  /-- and nothing that it turns down by itself. -/
  judged : ∀ (now : Nat) (r : Request) (answer : Response), n.assess now r = .error answer →
    answer.status ≠ 500
  /-- So none of the requests that it gets and carries out itself is answered so. -/
  received : n.membership.mustForward = false →
    ∀ (events : List Reception.Event) (u : Reception), (⟨n, []⟩ : Reception).run? events = some u →
      ∀ call ∈ u.calls, call.status? ≠ some 500

/-- **What has been checked is executed.** Wherever a course of events leads a node, the two comparisons
of versions agree, and an order whose checks have passed is executed. So every request fails by a
failure that its operation may come to, and a node with a valid configuration answers none that it
carries out itself with a fault of its own. -/
theorem checked_orders_execute {kind : String} {policy : Policy} {patience : Duration}
    {membership : Membership} {store : Store} {fresh : Nat} {c : Config} {n : Node}
    (h : (start kind policy patience membership store fresh).run? events = some t)
    (hvalid : c.validate = .ok ()) (hauth : n.auth = c.auth) : Unfailing (requests events) t n := by
  have horderly := Orderly.start.run h
  have hfailures := run?_failures Orderly.start rfl h
  have htells := Node.canTellCallers hvalid hauth
  refine ⟨fun o e he => Order.checkRevision_ok_iff he, ?_, ?_, ?_, ?_, ?_⟩
  · exact fun i o k hi => horderly.executes hi _
  · refine hfailures.imp fun q job hjob f hf => hjob f (Job.failure?_of_outcome hf)
  · intro job hjob outcome houtcome
    obtain ⟨i, hi⟩ := List.mem_iff_getElem?.mp hjob
    obtain ⟨q, -, hq⟩ := forall₂_getElem? hfailures hi
    refine Node.respond_faultless ?_
    rintro f rfl
    exact (hq f (Job.failure?_of_outcome houtcome)).status
  · exact fun now r answer hassess => Node.assess_faultless htells hassess
  · intro hlocal es u hrun
    exact (Reception.Faultless.run ⟨htells, hlocal, fun _ hcall => absurd hcall List.not_mem_nil⟩ hrun).calls

/-- Of the rivals one comes too late and another does not get its lock in time. -/
theorem checked_orders_execute_rivals :
    Config.default.validate = .ok () ∧ ∃ t, oneInlet.run? rivals = some t ∧
      t.jobs.map (fun job => job.failure?.map Failure.status) = [none, some 409, some 503] ∧
      Unfailing (requests rivals) t (.ofConfig Config.default 0) := by
  have hvalid : Config.default.validate = .ok () := by decide
  have hcourse : (oneInlet.run? rivals).map
      (fun t => t.jobs.map fun job => job.failure?.map Failure.status) =
        some [none, some 409, some 503] := by decide
  obtain ⟨t, ht, hstatuses⟩ := Option.map_eq_some_iff.mp hcourse
  exact ⟨hvalid, t, ht, hstatuses, checked_orders_execute ht hvalid rfl⟩

end Registry.Traffic

end InletRegistry
