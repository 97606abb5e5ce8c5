import InletRegistry.Proofs.Cluster.Membership
import InletRegistry.Proofs.Registry.Serial

/-!
# Orders and the role of the node

A node decides when a request comes whether it carries the order out itself, and does not ask again.
So an order that is executed here was admitted at a moment at which the node was no follower; but the
order may have waited for its lock meanwhile, and the node may have been told to step down. Exactly
then an order is executed by a follower.
-/

namespace InletRegistry

open InletRegistry.Cluster

namespace Registry.Traffic

variable {t u : Traffic} {e : Event} {events : List Event} {n : Nat} {job : Job}

/-- What a node is told of its role. -/
def roleCalls (events : List Event) : List RoleCall :=
  events.filterMap fun
    | .role call => some call
    | _ => none

/-- The membership hangs on the calls alone. -/
theorem run?_membership (h : t.run? events = some u) :
    u.membership = (roleCalls events).foldl Membership.heed t.membership := by
  refine course?_induction (P := fun es u =>
    u.membership = (roleCalls es).foldl Membership.heed t.membership) rfl ?_ h
  intro es u e v _ ih he
  unfold roleCalls at ih ⊢
  rw [List.filterMap_append, List.foldl_append, ← ih]
  rcases next?_cases he with ⟨_, _, _, rfl, rfl⟩ | ⟨_, _, _, _, _, _, rfl, -, -, rfl⟩ |
    ⟨_, _, rfl, -, -, rfl⟩ | ⟨_, rfl, rfl⟩ <;> rfl

/-- An order is admitted only by a node that is no follower. -/
theorem role_of_receive {caller id : String} {op : Operation}
    (h : (t.receive caller id op).order?.isSome = true) : t.membership.role ≠ .follower := by
  intro hrole
  unfold receive at h
  cases htask : op.toTask t.kind caller id with
  | error f =>
    rw [htask] at h
    cases h
  | ok task =>
    simp only [htask, Membership.mustForward_iff.mpr hrole, ↓reduceIte] at h
    cases h

/-- The job of an order was there before an event, or the event is its request. -/
theorem order_next (he : t.next? e = some u) (hn : u.jobs[n]? = some job)
    (ho : job.order?.isSome = true) :
    (∃ job', t.jobs[n]? = some job' ∧ job'.order?.isSome = true) ∨
      ∃ caller id op, e = .request caller id op ∧ t.jobs.length = n ∧
        t.membership.role ≠ .follower := by
  rcases next?_cases he with ⟨caller, id, op, rfl, rfl⟩ | ⟨m, a, job', job'', locks, ledger, -, hm,
    hturn, rfl⟩ | ⟨l, locks, -, -, -, rfl⟩ | ⟨call, -, rfl⟩
  · rw [List.getElem?_append] at hn
    split at hn
    next => exact Or.inl ⟨job, hn, ho⟩
    next hge =>
      rw [List.getElem?_singleton] at hn
      split at hn
      next hzero =>
        obtain rfl := Option.some.inj hn
        exact Or.inr ⟨caller, id, op, rfl, by omega, role_of_receive ho⟩
      next => cases hn
  · by_cases hnm : m = n
    · subst hnm
      rw [List.getElem?_set_self (List.getElem?_eq_some_iff.mp hm).1] at hn
      obtain rfl := Option.some.inj hn
      obtain ⟨o, horder⟩ := Option.isSome_iff_exists.mp ho
      exact Or.inl ⟨job', hm, by rw [hturn.order horder]; rfl⟩
    · rw [List.getElem?_set_ne hnm] at hn
      exact Or.inl ⟨job, hn, ho⟩
  · exact Or.inl ⟨job, hn, ho⟩
  · exact Or.inl ⟨job, hn, ho⟩

/-- The request of an order came at a moment at which the node was no follower. -/
theorem exists_request (hjobs : t.jobs = []) (h : t.run? events = some u)
    (hn : u.jobs[n]? = some job) (ho : job.order?.isSome = true) :
    ∃ before caller id op between s, events = before ++ .request caller id op :: between ∧
      t.run? before = some s ∧ s.run? (.request caller id op :: between) = some u ∧
      s.jobs.length = n ∧ s.membership.role ≠ .follower := by
  refine course?_induction (P := fun es u => ∀ job, u.jobs[n]? = some job →
    job.order?.isSome = true → ∃ before caller id op between s,
      es = before ++ .request caller id op :: between ∧ t.run? before = some s ∧
      s.run? (.request caller id op :: between) = some u ∧ s.jobs.length = n ∧
      s.membership.role ≠ .follower) ?_ ?_ h job hn ho
  · intro job hn
    rw [hjobs, List.getElem?_nil] at hn
    cases hn
  · intro es u e v hes ih he job hn ho
    rcases order_next he hn ho with ⟨job', hn', ho'⟩ | ⟨caller, id, op, rfl, hlength, hrole⟩
    · obtain ⟨before, caller, id, op, between, s, rfl, hbefore, hbetween, hlength, hrole⟩ :=
        ih job' hn' ho'
      refine ⟨before, caller, id, op, between ++ [e], s, ?_, hbefore, ?_, hlength, hrole⟩
      · rw [List.append_assoc, List.cons_append]
      · exact course?_concat hbetween he
    · refine ⟨es, caller, id, op, [], u, rfl, hes, ?_, hlength, hrole⟩
      simp only [run?, course?, he, Option.bind_some]

/-- **When a follower executes.** Whenever an order is about to be executed, its request came at a
moment at which the node was no follower; and the node is a follower now exactly if it is clustered
and the last that it was told since that moment is to step down. -/
theorem follower_executes_iff {kind : String} {policy : Access.Policy} {patience : Time.Duration}
    {membership : Membership} {store : Store} {fresh k : Nat} {o : Order}
    (h : (start kind policy patience membership store fresh).run? events = some t)
    (hn : t.jobs[n]? = some (.working o k (.due .executing))) :
    ∃ before caller id op between s, events = before ++ .request caller id op :: between ∧
      (start kind policy patience membership store fresh).run? before = some s ∧
      s.jobs.length = n ∧ s.membership.role ≠ .follower ∧
      (t.membership.role = .follower ↔ s.membership.isClustered = true ∧
        ∃ url, (roleCalls between).getLast? = some (.stepDown url)) := by
  obtain ⟨before, caller, id, op, between, s, hevents, hbefore, hbetween, hlength, hrole⟩ :=
    exists_request rfl h hn rfl
  refine ⟨before, caller, id, op, between, s, hevents, hbefore, hlength, hrole, ?_⟩
  have hcalls : roleCalls (.request caller id op :: between) = roleCalls between := rfl
  rw [run?_membership hbetween, hcalls]
  rcases List.eq_nil_or_concat (roleCalls between) with hnil | ⟨calls, call, hlast⟩
  · rw [hnil]
    refine ⟨fun hfollower => absurd hfollower hrole, ?_⟩
    rintro ⟨-, url, hnone⟩
    cases hnone
  · rw [hlast, List.concat_eq_append, Membership.role_foldl_heed, List.getLast?_concat]
    simp only [Option.some.injEq]

/-- A coordinator with one inlet. -/
def oneCoordinator : Traffic :=
  start "input port" [⟨"*", "*", [.read, .write]⟩] (.ofSeconds 1) ⟨.coordinator, none⟩
    ⟨[("p1", ⟨⟨"p1", "in", "", .stopped, 1⟩, 1⟩)]⟩ 0

/-- An update waits for its lock while the coordinator steps down, and then gets as far as its
execution. -/
def overtaken : List Event :=
  [.locks (.arrive "p1" (.ofSeconds 1)), .locks (.ask 0 1), .request "a" "p1" (rename "x"),
    .act 0 .go, .locks (.ask 0 3), .role (.stepDown none), .locks (.release 1), .locks (.hand 3),
    .locks (.resume 3), .act 0 .go, .act 0 .go, .act 0 .go, .act 0 .go]

/-- The order of the update. -/
def overtakenOrder : Order :=
  ⟨"a", ⟨some 1, "c", "p1"⟩, .update ⟨some "p1", some "x", none, none, none⟩⟩

/-- The overtaken update is executed by a follower. -/
theorem follower_executes_iff_overtaken :
    ∃ t, oneCoordinator.run? overtaken = some t ∧
      t.jobs[0]? = some (.working overtakenOrder 3 (.due .executing)) ∧
      t.membership.role = .follower ∧
      ∃ before caller id op between s, overtaken = before ++ .request caller id op :: between ∧
        oneCoordinator.run? before = some s ∧ s.jobs.length = 0 ∧ s.membership.role ≠ .follower ∧
        (t.membership.role = .follower ↔ s.membership.isClustered = true ∧
          ∃ url, (roleCalls between).getLast? = some (.stepDown url)) := by
  have hruns : ((oneCoordinator.run? overtaken).bind fun t => t.jobs[0]?) =
      some (.working overtakenOrder 3 (.due .executing)) := by decide
  obtain ⟨t, ht, hjob⟩ := Option.bind_eq_some_iff.mp hruns
  have hrole : t.membership.role = .follower := by
    rw [run?_membership ht]
    decide
  exact ⟨t, ht, hjob, hrole, follower_executes_iff ht hjob⟩

/-- It is not so that no order is carried out by a follower. -/
theorem not_no_follower_executes :
    ¬ ∀ (events : List Event) (t : Traffic) (n : Nat) (c : Commit),
      oneCoordinator.run? events = some t → t.commit? (.act n .go) = some c →
        t.membership.role ≠ .follower := by
  intro h
  have hruns : ((oneCoordinator.run? overtaken).bind fun t => t.commit? (.act 0 .go)).isSome =
      true := by decide
  obtain ⟨c, hc⟩ := Option.isSome_iff_exists.mp hruns
  obtain ⟨t, ht, hcommit⟩ := Option.bind_eq_some_iff.mp hc
  refine h overtaken t 0 c ht hcommit ?_
  rw [run?_membership ht]
  decide

end Registry.Traffic

end InletRegistry
