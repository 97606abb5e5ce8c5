import InletRegistry.Proofs.Registry.Serial
import InletRegistry.Proofs.Registry.Strangers

/-!
# What strangers learn

All that a stranger learns is whether the inlet is there. The theorem is about two nodes at once. Their
stores may differ in everything that is in them; the same request comes to both, and then its two jobs
move in tandem: whatever one does the other does too, the inlet of the request being there at both
nodes or at neither when they do it, and between two such steps anything may happen at either node. The
jobs then look the same at every moment.

It comes from two facts. A job for which no function of the store is due but the look-up of a name is
the same at both nodes after whatever it does (`act?_alike`); and no other function is ever due for the
job of a stranger (`Turn.barred`).
-/

namespace InletRegistry

open Access

namespace Store

variable {s s' : Store} {policy : Policy} {caller id : String} {action : Action}

/-- Who is let through hangs on which inlets there are, not on what they are like. -/
theorem authorize_alike (h : (s.find? id).isSome = (s'.find? id).isSome) :
    s.authorize policy caller id action = s'.authorize policy caller id action := by
  unfold authorize resolve lookup
  cases hs : s.find? id <;> cases hs' : s'.find? id
  · rfl
  · rw [hs, hs'] at h
    cases h
  · rw [hs, hs'] at h
    cases h
  · rfl

end Store

namespace Registry

open Cluster Locks Text Time Write

namespace Job

/-- A job without the number of its ticket, which nobody is told. -/
def face : Job → Job
  | queued o _ => queued o 0
  | working o _ progress => working o 0 progress
  | job => job

/-- Two jobs that look the same differ in their tickets at most. -/
theorem face_cases {i j : Job} (h : i.face = j.face) : i = j ∧ i.ticket? = none ∨
    (∃ o k l, i = .queued o k ∧ j = .queued o l) ∨
    ∃ o k l progress, i = .working o k progress ∧ j = .working o l progress := by
  cases i with
  | queued o k =>
    cases j with
    | queued o' l =>
      cases h
      exact Or.inr (Or.inl ⟨o, k, l, rfl, rfl⟩)
    | _ => cases h
  | working o k progress =>
    cases j with
    | working o' l progress' =>
      cases h
      exact Or.inr (Or.inr ⟨o, k, l, progress, rfl, rfl⟩)
    | _ => cases h
  | _ =>
    refine Or.inl ⟨?_, rfl⟩
    cases j <;> first | exact h | cases h

end Job

namespace Traffic

variable {t u : Traffic} {q : Inquiry} {i j i' j' : Job} {a : Act} {n m : Nat}
  {locks locks' : LockTable} {ledger ledger' : Ledger} {e : Event} {events : List Event}

/-! ## Nodes that are alike -/

/-- Nodes that have the same settings. -/
structure Peers (t u : Traffic) : Prop where
  kind : t.kind = u.kind
  policy : t.policy = u.policy
  patience : t.patience = u.patience

theorem Peers.next (h : Peers t u) {t' : Traffic} (he : t.next? e = some t') : Peers t' u :=
  ⟨(next?_kind he).trans h.kind, (next?_policy he).trans h.policy,
    (next?_patience he).trans h.patience⟩

theorem Peers.symm (h : Peers t u) : Peers u t := ⟨h.kind.symm, h.policy.symm, h.patience.symm⟩

/-- A comparison of versions that nobody claims asks the store nothing. -/
theorem advance_checking {o : Order} (t : Traffic) (h : o.revision.version = none) :
    ((o.steps t.policy).advance o.revision t.ledger .checking).1 = .due .executing := by
  simp only [Steps.advance, Steps.checkRevision, h]

/-- What is due of an order comes to the same where the inlet is there at both nodes or at neither, if it
is not a function of the store. -/
theorem advance_alike {o : Order} {k : Nat} {phase : Phase} (hpolicy : t.policy = u.policy)
    (hpresent : (t.store.find? o.id).isSome = (u.store.find? o.id).isSome)
    (hcall : (Job.working o k (.due phase)).call? = none) :
    ((o.steps t.policy).advance o.revision t.ledger phase).1 =
      ((o.steps u.policy).advance o.revision u.ledger phase).1 := by
  cases phase with
  | authorizing =>
    rw [advance_authorizing, advance_authorizing, hpolicy, Store.authorize_alike hpresent]
  | verifying | executing =>
    simp only [Job.call?] at hcall
    split at hcall <;> cases hcall
  | checking =>
    have hversion : o.revision.version = none := by
      cases hv : o.revision.version with
      | none => rfl
      | some expected =>
        rw [Job.call?, hv] at hcall
        cases hcall
    rw [advance_checking t hversion, advance_checking u hversion]

/-- **What is not asked of the store cannot be told apart.** A job for which nothing is due at the store
but the look-up of a name comes to the same at two nodes where the inlet is there or at neither. -/
theorem act?_alike (hpeers : Peers t u)
    (hpresent : (t.store.find? q.id).isSome = (u.store.find? q.id).isSome)
    (hq : i.Concerns t.kind q) (hcall : i.call? = none) (hface : i.face = j.face)
    (hi : t.act? i a = some (i', locks, ledger)) (hj : u.act? j a = some (j', locks', ledger')) :
    i'.face = j'.face := by
  rcases Job.face_cases hface with ⟨rfl, hticket⟩ | ⟨o, k, l, rfl, rfl⟩ | ⟨o, k, l, progress, rfl, rfl⟩
  · cases i with
    | reading caller id cleared =>
      cases a with
      | go =>
        cases cleared with
        | true => cases hcall
        | false =>
          obtain ⟨-, rfl, rfl⟩ := Inquiry.view_of_task hq
          obtain rfl : (t.look q.caller q.id false).1 = i' := congrArg Prod.fst (Option.some.inj hi)
          obtain rfl : (u.look q.caller q.id false).1 = j' := congrArg Prod.fst (Option.some.inj hj)
          rw [look_uncleared, look_uncleared, hpeers.policy, Store.authorize_alike hpresent]
      | _ => cases hi
    | admitted o =>
      cases a with
      | go =>
        cases hi
        cases hj
        rfl
      | _ => cases hi
    | recording o v =>
      cases a with
      | go =>
        cases hi
        cases hj
        rfl
      | _ => cases hi
    | queued | working => cases hticket
    | refused | sentOn | shown | answered | dropped => cases hi
  · cases a with
    | go =>
      simp only [act?] at hi hj
      split at hi <;> cases hi
      split at hj <;> cases hj
      rfl
    | lapse =>
      obtain ⟨_, -, heq⟩ := Option.map_eq_some_iff.mp hi
      obtain ⟨_, -, heq'⟩ := Option.map_eq_some_iff.mp hj
      cases heq
      cases heq'
      rw [hpeers.patience]
    | drop =>
      obtain ⟨_, -, heq⟩ := Option.map_eq_some_iff.mp hi
      obtain ⟨_, -, heq'⟩ := Option.map_eq_some_iff.mp hj
      cases heq
      cases heq'
      rfl
  · cases progress with
    | ended outcome =>
      cases a with
      | go =>
        obtain ⟨_, -, heq⟩ := Option.map_eq_some_iff.mp hi
        obtain ⟨_, -, heq'⟩ := Option.map_eq_some_iff.mp hj
        cases heq
        cases heq'
        rfl
      | _ => cases hi
    | due phase =>
      cases a with
      | go =>
        obtain rfl : .working o k ((o.steps t.policy).advance o.revision t.ledger phase).1 = i' :=
          congrArg Prod.fst (Option.some.inj hi)
        obtain rfl : .working o l ((o.steps u.policy).advance o.revision u.ledger phase).1 = j' :=
          congrArg Prod.fst (Option.some.inj hj)
        rw [← (Inquiry.order_of_task hq).2.1] at hpresent
        rw [advance_alike hpeers.policy hpresent hcall]
        rfl
      | _ => cases hi

/-- Whether a job has its lock. -/
def hasLock (t : Traffic) (job : Job) : Bool := job.ticket?.any t.locks.holds

/-- Whether a job may give up waiting for its lock. -/
def awaitsLock (t : Traffic) (job : Job) : Bool :=
  job.ticket?.any fun k => (t.locks.claimAt? k Stage.isSuspended).isSome

/-- A claim may be let go of where it holds its lock. -/
theorem release_isSome (locks : LockTable) (k : Nat) :
    (locks.next? (.release k)).isSome = locks.holds k := by
  simp only [LockTable.next?, Option.isSome_map, LockTable.claimAt?, LockTable.holds]
  cases locks.claim? k with
  | none => rfl
  | some c => by_cases hheld : c.stage = .held <;> simp [Option.filter, hheld]

/-- What a job may do hangs on its lock and on nothing else. -/
theorem act?_isSome_alike (hface : i.face = j.face) (hholds : t.hasLock i = u.hasLock j)
    (hawaits : t.awaitsLock i = u.awaitsLock j) : (t.act? i a).isSome = (u.act? j a).isSome := by
  rcases Job.face_cases hface with ⟨rfl, hticket⟩ | ⟨o, k, l, rfl, rfl⟩ |
    ⟨o, k, l, progress, rfl, rfl⟩
  · cases i with
    | queued | working => cases hticket
    | _ => cases a <;> rfl
  · simp only [hasLock, Job.ticket?, Job.seat?, Option.map_some, Option.any_some] at hholds
    simp only [awaitsLock, Job.ticket?, Job.seat?, Option.map_some, Option.any_some] at hawaits
    cases a with
    | go =>
      simp only [act?, hholds]
      split <;> rfl
    | lapse | drop => simpa only [act?, LockTable.next?, Option.isSome_map] using hawaits
  · simp only [hasLock, Job.ticket?, Job.seat?, Option.map_some, Option.any_some] at hholds
    cases progress with
    | due phase => cases a <;> rfl
    | ended outcome =>
      cases a with
      | go => simpa only [act?, Option.isSome_map, release_isSome] using hholds
      | _ => rfl

end Traffic

/-! ## The same request at both -/

/-- Two nodes with a job of the same request at each. -/
structure Tandem where
  left : Traffic
  right : Traffic
  /-- The number of the job at the first node. -/
  leftJob : Nat
  rightJob : Nat

namespace Tandem

/-- What can happen at two nodes. -/
inductive Event where
  /-- The two jobs do the same. -/
  | both (a : Act)
  /-- Something else happens at the first node. -/
  | left (e : Registry.Event)
  | right (e : Registry.Event)

/-- Whether an event is the turn of a certain job. -/
def isTurnOf (n : Nat) : Registry.Event → Bool
  | .act m _ => m == n
  | _ => false

/-- Two nodes that have taken a request. -/
def receive (q : Inquiry) (t u : Traffic) : Tandem :=
  ⟨{ t with jobs := t.jobs ++ [t.receive q.caller q.id q.op] },
    { u with jobs := u.jobs ++ [u.receive q.caller q.id q.op] }, t.jobs.length, u.jobs.length⟩

/-- The nodes after an event, if that is possible. The two jobs only move where both nodes have the
inlet of the request or neither has it. -/
def next? (id : String) (p : Tandem) : Event → Option Tandem
  | .both a =>
    if (p.left.store.find? id).isSome = (p.right.store.find? id).isSome then
      (p.left.next? (.act p.leftJob a)).bind fun left =>
        (p.right.next? (.act p.rightJob a)).map fun right => { p with left, right }
    else none
  | .left e =>
    if isTurnOf p.leftJob e then none else (p.left.next? e).map fun left => { p with left }
  | .right e =>
    if isTurnOf p.rightJob e then none else (p.right.next? e).map fun right => { p with right }

/-- The nodes after a course of events. -/
abbrev run? (id : String) (p : Tandem) (events : List Event) : Option Tandem :=
  course? (next? id) p events

/-- How the two jobs of a stranger's request stand: they look the same and have not been let through. -/
structure Abreast (q : Inquiry) (p : Tandem) : Prop where
  peers : p.left.Peers p.right
  stranger : q.isEntitled p.left.policy = false
  left : p.left.Orderly
  right : p.right.Orderly
  jobs : ∃ i j, p.left.jobs[p.leftJob]? = some i ∧ p.right.jobs[p.rightJob]? = some j ∧
    i.face = j.face ∧ i.Concerns p.left.kind q ∧ j.Concerns p.right.kind q ∧
    i.Barred p.left.patience q ∧ j.Barred p.right.patience q

variable {q : Inquiry} {p p' : Tandem} {t u : Traffic} {e : Event} {events : List Event}

/-- An event that is not the turn of a job leaves the job as it is. -/
theorem job_of_other {e : Registry.Event} {n : Nat} {job : Job} (h : isTurnOf n e = false)
    (he : t.next? e = some u) (hn : t.jobs[n]? = some job) : u.jobs[n]? = some job := by
  rcases Traffic.next?_cases he with ⟨caller, id, op, rfl, rfl⟩ | ⟨m, a, i, i', locks, ledger, rfl,
    hm, hturn, rfl⟩ | ⟨l, locks, rfl, -, -, rfl⟩ | ⟨call, rfl, rfl⟩
  · exact (List.getElem?_append_left (List.getElem?_eq_some_iff.mp hn).choose).trans hn
  · have hne : m ≠ n := of_decide_eq_false h
    exact (List.getElem?_set_ne hne).trans hn
  · exact hn
  · exact hn

namespace Abreast

theorem receive (hpeers : t.Peers u) (hforward : t.membership.mustForward = u.membership.mustForward)
    (ht : t.Orderly) (hu : u.Orderly) (hstranger : q.isEntitled t.policy = false) :
    (Tandem.receive q t u).Abreast q := by
  have hjob : t.receive q.caller q.id q.op = u.receive q.caller q.id q.op := by
    simp only [Traffic.receive, hpeers.kind, hforward]
  have hbarred : (u.receive q.caller q.id q.op).Barred u.patience q := by
    unfold Traffic.receive
    cases q.op.toTask u.kind q.caller q.id with
    | error f => trivial
    | ok task =>
      simp only
      split
      · trivial
      · cases task with
        | view => exact rfl
        | order => trivial
  have hleft := t.receive_concerns q
  rw [hjob] at hleft
  refine ⟨⟨hpeers.kind, hpeers.policy, hpeers.patience⟩, hstranger, ht.receive q.caller q.id q.op,
    hu.receive q.caller q.id q.op, t.receive q.caller q.id q.op, u.receive q.caller q.id q.op,
    List.getElem?_concat_length, List.getElem?_concat_length, by rw [hjob], hjob ▸ hleft,
    u.receive_concerns q, ?_, hbarred⟩
  rw [hjob]
  show Job.Barred t.patience q _
  rw [hpeers.patience]
  exact hbarred

theorem both (h : p.Abreast q) {a : Act}
    (hpresent : (p.left.store.find? q.id).isSome = (p.right.store.find? q.id).isSome)
    (ht : p.left.next? (.act p.leftJob a) = some t) (hu : p.right.next? (.act p.rightJob a) = some u) :
    Abreast q { p with left := t, right := u } := by
  obtain ⟨i, j, hi, hj, hface, hconcerns, hconcerns', hbarred, hbarred'⟩ := h.jobs
  obtain ⟨i', hi', hact⟩ := Traffic.next?_act ht hi
  obtain ⟨j', hj', hact'⟩ := Traffic.next?_act hu hj
  have hstranger' : q.isEntitled p.right.policy = false := h.peers.policy ▸ h.stranger
  refine ⟨((h.peers.next ht).symm.next hu).symm, ?_, h.left.next ht, h.right.next hu, i', j', hi',
    hj', Traffic.act?_alike h.peers hpresent hconcerns hbarred.call?_eq_none hface hact hact', ?_, ?_,
    ?_, ?_⟩
  · rw [Traffic.next?_policy ht]
    exact h.stranger
  · rw [Traffic.next?_kind ht]
    exact (Traffic.turn_of_act? hact).concerns hconcerns
  · rw [Traffic.next?_kind hu]
    exact (Traffic.turn_of_act? hact').concerns hconcerns'
  · rw [Traffic.next?_patience ht]
    exact (Traffic.turn_of_act? hact).barred hconcerns h.stranger hbarred
  · rw [Traffic.next?_patience hu]
    exact (Traffic.turn_of_act? hact').barred hconcerns' hstranger' hbarred'

/-- The same two nodes the other way round. -/
theorem symm (h : p.Abreast q) : Abreast q ⟨p.right, p.left, p.rightJob, p.leftJob⟩ := by
  obtain ⟨i, j, hi, hj, hface, hconcerns, hconcerns', hbarred, hbarred'⟩ := h.jobs
  exact ⟨h.peers.symm, h.peers.policy ▸ h.stranger, h.right, h.left, j, i, hj, hi, hface.symm,
    hconcerns', hconcerns, hbarred', hbarred⟩

theorem beside (h : p.Abreast q) {e : Registry.Event} (hother : isTurnOf p.leftJob e = false)
    (ht : p.left.next? e = some t) : Abreast q { p with left := t } := by
  obtain ⟨i, j, hi, hj, hface, hconcerns, hconcerns', hbarred, hbarred'⟩ := h.jobs
  refine ⟨h.peers.next ht, ?_, h.left.next ht, h.right, i, j, job_of_other hother ht hi, hj, hface, ?_,
    hconcerns', ?_, hbarred'⟩
  · rw [Traffic.next?_policy ht]
    exact h.stranger
  · rw [Traffic.next?_kind ht]
    exact hconcerns
  · rw [Traffic.next?_patience ht]
    exact hbarred

/-- Whatever happens at either node, the two jobs stay abreast. -/
theorem next (h : p.Abreast q) (he : p.next? q.id e = some p') : p'.Abreast q := by
  cases e with
  | both a =>
    simp only [next?] at he
    split at he
    next hpresent =>
      obtain ⟨t, ht, hrest⟩ := Option.bind_eq_some_iff.mp he
      obtain ⟨u, hu, rfl⟩ := Option.map_eq_some_iff.mp hrest
      exact h.both hpresent ht hu
    next => cases he
  | left e =>
    simp only [next?] at he
    split at he
    next => cases he
    next hother =>
      obtain ⟨t, ht, rfl⟩ := Option.map_eq_some_iff.mp he
      exact h.beside (Bool.eq_false_iff.mpr hother) ht
  | right e =>
    simp only [next?] at he
    split at he
    next => cases he
    next hother =>
      obtain ⟨u, hu, rfl⟩ := Option.map_eq_some_iff.mp he
      exact (h.symm.beside (Bool.eq_false_iff.mpr hother) hu).symm

theorem run (h : p.Abreast q) (hrun : p.run? q.id events = some p') : p'.Abreast q :=
  course?_invariant h (fun _ _ _ hp he => hp.next he) hrun

end Abreast

/-- What a stranger's request comes to at two nodes. -/
structure Blind (q : Inquiry) (p : Tandem) : Prop where
  /-- The jobs look the same. -/
  same : ∃ i j, p.left.jobs[p.leftJob]? = some i ∧ p.right.jobs[p.rightJob]? = some j ∧
    i.face = j.face
  /-- What one may do the other may do, where they stand alike towards their locks. -/
  possible : ∀ i j a, p.left.jobs[p.leftJob]? = some i → p.right.jobs[p.rightJob]? = some j →
    p.left.hasLock i = p.right.hasLock j → p.left.awaitsLock i = p.right.awaitsLock j →
      (p.left.next? (.act p.leftJob a)).isSome = (p.right.next? (.act p.rightJob a)).isSome
  left : p.left.Barred q p.leftJob
  right : p.right.Barred q p.rightJob

/-- **Strangers learn whether an inlet is there, and nothing else.** Let two nodes have the same grants,
and let a request come to both whose caller is given by no grant what it needs. However different
their stores are, as long as the inlet is there at both or at neither when the request moves, its jobs
look the same at every moment, whatever else happens at either node; the answer is one of the rebuffs,
and which one is settled by whether the inlet is there and the lock is had in time; no function that
gives, compares or changes an inlet is ever called; and the stores stay as they are. -/
theorem strangers_learn_nothing (hpeers : t.Peers u)
    (hforward : t.membership.mustForward = u.membership.mustForward) (ht : t.Orderly)
    (hu : u.Orderly) (hstranger : q.isEntitled t.policy = false)
    (h : (receive q t u).run? q.id events = some p) : p.Blind q := by
  have habreast := (Abreast.receive hpeers hforward ht hu hstranger).run h
  obtain ⟨i, j, hi, hj, hface, hconcerns, hconcerns', hbarred, hbarred'⟩ := habreast.jobs
  have hstranger' : q.isEntitled p.right.policy = false :=
    habreast.peers.policy ▸ habreast.stranger
  refine ⟨⟨i, j, hi, hj, hface⟩, ?_,
    Traffic.barred_of_job habreast.left hi hconcerns habreast.stranger hbarred,
    Traffic.barred_of_job habreast.right hj hconcerns' hstranger' hbarred'⟩
  intro i' j' a hi' hj' hholds hawaits
  obtain rfl := Option.some.inj (hi.symm.trans hi')
  obtain rfl := Option.some.inj (hj.symm.trans hj')
  rw [Traffic.next?_act_isSome hi, Traffic.next?_act_isSome hj]
  exact Traffic.act?_isSome_alike hface hholds hawaits

/-- A node where only one caller may do anything, with an inlet in a certain state. -/
def oneCaller (inlet : Inlet) (version : Nat) : Traffic :=
  .start "input port" [⟨"a", "*", [.read, .write]⟩] (.ofSeconds 1) ⟨.standalone, none⟩
    ⟨[("p1", ⟨inlet, version⟩)]⟩ 0

theorem oneCaller_orderly {inlet : Inlet} {version : Nat} : (oneCaller inlet version).Orderly :=
  Traffic.Orderly.start

/-- Somebody else wants to rename an inlet. -/
def stranger : Inquiry := ⟨"e", "p1", Traffic.rename "x"⟩

/-- A stopped inlet at its first version. -/
def calm : Traffic := oneCaller ⟨"p1", "in", "", .stopped, 1⟩ 1

/-- A running inlet at a later version. -/
def lively : Traffic := oneCaller ⟨"p1", "out", "busy", .running, 4⟩ 7

/-- The stranger claims a lock at both nodes, and is let in one after another. -/
def intrusion : List Event :=
  [.both .go, .left (.locks (.ask 0 1)), .left (.request "a" "p1" .get), .left (.act 1 .go),
    .right (.locks (.ask 5 1)), .both .go, .left (.act 1 .go), .both .go, .both .go]

/-- At both nodes the stranger hears the same. -/
theorem strangers_learn_nothing_intrusion :
    ∃ p, (receive stranger calm lively).run? "p1" intrusion = some p ∧
      (p.left.jobs[0]?.bind Job.outcome? = some (.error
        (.authorizationDenied "e may not write /input-ports/p1")) ∧
      p.right.jobs[0]?.bind Job.outcome? = p.left.jobs[0]?.bind Job.outcome?) ∧
      p.Blind stranger := by
  have hruns : ((receive stranger calm lively).run? "p1" intrusion).map (fun p =>
      (p.left.jobs[0]?.bind Job.outcome?, p.right.jobs[0]?.bind Job.outcome?)) =
      some (some (.error (.authorizationDenied "e may not write /input-ports/p1")),
        some (.error (.authorizationDenied "e may not write /input-ports/p1"))) := by
    decide +kernel
  obtain ⟨p, hp, htold⟩ := Option.map_eq_some_iff.mp hruns
  obtain ⟨hleft, hright⟩ := Prod.mk.inj htold
  have hpeers : calm.Peers lively := ⟨rfl, rfl, rfl⟩
  have hstranger : stranger.isEntitled calm.policy = false := by decide +kernel
  exact ⟨p, hp, ⟨hleft, hright.trans hleft.symm⟩,
    strangers_learn_nothing hpeers rfl oneCaller_orderly oneCaller_orderly hstranger hp⟩

end Tandem

end Registry

end InletRegistry
