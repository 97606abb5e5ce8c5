import InletRegistry.Proofs.Registry.History
import Mathlib.Data.List.Forall2

/-!
# Requests and their jobs

Every request that a node takes has one job, in the order in which the requests came. A job never
forgets what it is about: whatever steps it takes, it is about the task that its request came to.

`run?_each` packages the induction that this rests on: what holds of the job of a request when it
comes, and is kept by every turn of the job, holds of every request and its job at any moment.
-/

namespace InletRegistry.Registry

open InletRegistry.Access InletRegistry.Cluster InletRegistry.Time

/-- A request: what a caller asks of an inlet. -/
structure Inquiry where
  caller : String
  id : String
  op : Operation
  deriving DecidableEq

/-- What a request comes to once it has been looked at. -/
def Inquiry.task (kind : String) (q : Inquiry) : Except Failure Task := q.op.toTask kind q.caller q.id

/-- The request of an event. -/
def Event.inquiry? : Event → Option Inquiry
  | .request caller id op => some ⟨caller, id, op⟩
  | _ => none

/-- The requests of a course of events, in the order in which they come. -/
def requests (events : List Event) : List Inquiry := events.filterMap Event.inquiry?

namespace Job

/-- The answer of a job, once it has one. -/
def outcome? : Job → Option Outcome
  | refused f => some (.error f)
  | shown _ _ outcome => some outcome
  | answered _ outcome => some outcome
  | _ => none

/-- Whether nothing more is to be done here for a job. -/
def isOver : Job → Bool
  | refused _ | sentOn | shown _ _ _ | answered _ _ | dropped _ => true
  | reading _ _ _ | admitted _ | queued _ _ | working _ _ _ | recording _ _ => false

/-- That a job is about a request. -/
def Concerns (kind : String) (q : Inquiry) : Job → Prop
  | refused f => q.task kind = .error f
  | sentOn => ∃ task, q.task kind = .ok task
  | reading caller id _ | shown caller id _ => q.task kind = .ok (.view caller id)
  | admitted o | queued o _ | working o _ _ | recording o _ | answered o _ | dropped o =>
    q.task kind = .ok (.order o)

end Job

/-- The task of a read is to show its inlet to its caller. -/
theorem Inquiry.view_of_task {kind caller id : String} {q : Inquiry}
    (h : q.task kind = .ok (.view caller id)) : q.op = .get ∧ caller = q.caller ∧ id = q.id := by
  unfold Inquiry.task Operation.toTask at h
  split at h
  next hop =>
    cases h
    exact ⟨hop, rfl, rfl⟩
  next => split at h <;> cases h
  next => cases h

/-- What an order takes from its request. -/
theorem Inquiry.order_of_task {kind : String} {q : Inquiry} {o : Order}
    (h : q.task kind = .ok (.order o)) : o.caller = q.caller ∧ o.id = q.id ∧
      ((∃ body p, q.op = .update body ∧ o.change = .update p) ∨
        ∃ version clientId, q.op = .delete version clientId ∧ o.change = .delete ∧
          o.revision.version = version) := by
  unfold Inquiry.task Operation.toTask at h
  split at h
  next => cases h
  next body hop =>
    split at h
    next => cases h
    next =>
      cases h
      exact ⟨rfl, rfl, Or.inl ⟨body, _, hop, rfl⟩⟩
  next version clientId hop =>
    cases h
    exact ⟨rfl, rfl, Or.inr ⟨version, clientId, hop, rfl, rfl⟩⟩

namespace Traffic

variable {t u : Traffic} {e : Event} {events : List Event} {n : Nat} {q : Inquiry} {job job' : Job}
  {kind : String} {locks : LockTable} {ledger : Ledger}

theorem next?_kind (he : t.next? e = some u) : u.kind = t.kind := by
  rcases next?_cases he with ⟨_, _, _, -, rfl⟩ | ⟨_, _, _, _, _, _, -, -, -, rfl⟩ |
    ⟨_, _, -, -, -, rfl⟩ | ⟨_, -, rfl⟩ <;> rfl

theorem run?_kind (h : t.run? events = some u) : u.kind = t.kind :=
  course?_invariant (P := fun u => u.kind = t.kind) rfl
    (fun _ _ _ hs he => (next?_kind he).trans hs) h

/-! ## One request, one job -/

/-- What holds of two lists place by place, where one place of the second is given something new. -/
theorem forall₂_set {α β : Type} {R : α → β → Prop} {as : List α} {bs : List β} {b : β} {n : Nat}
    (h : List.Forall₂ R as bs) (hb : ∀ a, as[n]? = some a → R a b) :
    List.Forall₂ R as (bs.set n b) := by
  induction h generalizing n with
  | nil => exact .nil
  | cons hhead htail ih =>
    cases n with
    | zero => exact .cons (hb _ rfl) htail
    | succ n => exact .cons hhead (ih fun a ha => hb a ha)

theorem forall₂_getElem? {α β : Type} {R : α → β → Prop} {as : List α} {bs : List β} {b : β} {n : Nat}
    (h : List.Forall₂ R as bs) (hb : bs[n]? = some b) : ∃ a, as[n]? = some a ∧ R a b := by
  obtain ⟨hlt, rfl⟩ := List.getElem?_eq_some_iff.mp hb
  have hlt' : n < as.length := h.length_eq ▸ hlt
  exact ⟨as[n], List.getElem?_eq_getElem hlt', h.get hlt' hlt⟩

/-- What holds of the job of a request when it comes, and is kept by every turn of the job, holds of
every request and its job wherever a course leads. -/
theorem run?_each {P : Inquiry → Job → Prop} (horderly : t.Orderly) (hjobs : t.jobs = [])
    (hreceive : ∀ (s : Traffic) caller id op, s.kind = t.kind →
      P ⟨caller, id, op⟩ (s.receive caller id op))
    (hturn : ∀ (s : Traffic) (n : Nat) q job job' locks ledger, s.Orderly → s.kind = t.kind →
      s.jobs[n]? = some job → s.Turn job job' locks ledger → P q job → P q job')
    (h : t.run? events = some u) : List.Forall₂ P (requests events) u.jobs := by
  refine (course?_induction (P := fun es u => (u.Orderly ∧ u.kind = t.kind) ∧
    List.Forall₂ P (requests es) u.jobs) ?_ ?_ h).2
  · rw [hjobs]
    exact ⟨⟨horderly, rfl⟩, .nil⟩
  · rintro es u e v - ⟨⟨horder, hkind⟩, heach⟩ he
    refine ⟨⟨horder.next he, (next?_kind he).trans hkind⟩, ?_⟩
    have happend : requests (es ++ [e]) = requests es ++ e.inquiry?.toList := by
      rw [requests, List.filterMap_append]
      cases e <;> rfl
    rw [happend]
    rcases next?_cases he with ⟨caller, id, op, rfl, rfl⟩ | ⟨n, a, job, job', locks, ledger, rfl, hn,
      hstep, rfl⟩ | ⟨l, locks, rfl, -, -, rfl⟩ | ⟨call, rfl, rfl⟩
    · exact List.rel_append heach (.cons (hreceive u caller id op hkind) .nil)
    · rw [show (Event.act n a).inquiry?.toList = [] from rfl, List.append_nil]
      refine forall₂_set heach ?_
      intro q hq
      obtain ⟨q', hq', hjob⟩ := forall₂_getElem? heach hn
      obtain rfl := Option.some.inj (hq.symm.trans hq')
      exact hturn u n q job job' locks ledger horder hkind hn hstep hjob
    · rw [show (Event.locks l).inquiry?.toList = [] from rfl, List.append_nil]
      exact heach
    · rw [show (Event.role call).inquiry?.toList = [] from rfl, List.append_nil]
      exact heach

theorem receive_concerns (t : Traffic) (q : Inquiry) :
    (t.receive q.caller q.id q.op).Concerns t.kind q := by
  unfold receive
  cases htask : q.op.toTask t.kind q.caller q.id with
  | error f => exact htask
  | ok task =>
    simp only
    split
    next => exact ⟨task, htask⟩
    next => cases task <;> exact htask

/-- A turn leaves what a job is about. -/
theorem Turn.concerns (h : t.Turn job job' locks ledger) (hq : job.Concerns kind q) :
    job'.Concerns kind q := by
  cases h with
  | @look caller id cleared _ _ hlook =>
    rcases t.look_cases caller id cleared with ⟨b, hjob⟩ | ⟨outcome, hjob⟩ <;>
      rw [hlook] at hjob <;> cases hjob <;> exact hq
  | claim | enter | step | record => exact hq
  | giveUp _ _ hend => rcases hend with rfl | rfl <;> exact hq
  | @leave _ _ outcome _ _ => cases outcome <;> exact hq

/-- Every request has one job, which is about it. -/
theorem run?_concerns (horderly : t.Orderly) (hjobs : t.jobs = []) (h : t.run? events = some u) :
    List.Forall₂ (Job.Concerns t.kind) (requests events) u.jobs := by
  refine run?_each horderly hjobs ?_ ?_ h
  · intro s caller id op hkind
    rw [← hkind]
    exact s.receive_concerns ⟨caller, id, op⟩
  · intro s n q job job' locks ledger _ _ _ hstep hq
    exact hstep.concerns hq

end Traffic

end InletRegistry.Registry
