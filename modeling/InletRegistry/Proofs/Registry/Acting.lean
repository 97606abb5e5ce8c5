import InletRegistry.Proofs.Locks.Acting
import InletRegistry.Proofs.Registry.Orderly
import InletRegistry.Proofs.Write.Account

/-!
# The service is such a node

`Service` takes requests, lets them wait and carries them out, each in one operation. What it comes to
is what some course of events comes to at a node, with the steps of one job after another and nothing
between them. So what holds of a node after every course of events holds of the service that runs.
-/

namespace InletRegistry.Registry

open InletRegistry.Access InletRegistry.Cluster InletRegistry.Locks InletRegistry.Time
  InletRegistry.Write

/-- What a service may be asked to do. -/
inductive Demand where
  /-- An operation on an inlet for a caller. -/
  | operate (now : Nat) (caller id : String) (op : Operation)
  /-- To go on with an order to which its lock has been handed. -/
  | resume (ticket : Nat)
  /-- To turn down an order whose time is up. -/
  | expire (ticket : Nat)
  /-- To drop an order whose client goes away. -/
  | cancel (ticket : Nat)

/-- The service after it has met a demand, if that can be made. -/
def Service.meet? (s : Service) : Demand → Option Service
  | .operate now caller id op =>
    match op.toTask s.kind caller id with
    | .error _ => some s
    | .ok task => some (s.start? now task).2
  | .resume ticket => some (s.resume ticket).2
  | .expire ticket =>
    (s.locks.claimAt? ticket Stage.waits).map fun _ => (s.expire ticket).2
  | .cancel ticket =>
    (s.locks.claimAt? ticket Stage.isSuspended).map fun _ => s.cancel ticket

/-- The order with its ticket, if the job waits for its lock. -/
def Job.waiting? : Job → Option (Nat × Order)
  | .queued o ticket => some (ticket, o)
  | _ => none

namespace Traffic

variable {t u : Traffic} {n k : Nat} {job job' : Job} {o : Order} {a : Act}
  {locks locks' : LockTable} {ledger ledger' : Ledger}

/-- The node as a service. -/
def service (t : Traffic) : Service :=
  ⟨t.kind, t.policy, t.patience, t.ledger, t.locks, t.jobs.filterMap Job.waiting?⟩

@[simp] theorem service_kind : t.service.kind = t.kind := rfl

@[simp] theorem service_policy : t.service.policy = t.policy := rfl

@[simp] theorem service_patience : t.service.patience = t.patience := rfl

@[simp] theorem service_ledger : t.service.ledger = t.ledger := rfl

@[simp] theorem service_locks : t.service.locks = t.locks := rfl

/-- That some course of events leads from one node to another while the node is told no role. -/
abbrev Leads (t u : Traffic) : Prop :=
  InletRegistry.Leads next? (fun e => ∀ call, e ≠ .role call) t u

theorem Leads.orderly (h : t.Leads u) (ht : t.Orderly) : u.Orderly := by
  obtain ⟨events, -, hrun⟩ := h
  exact ht.run hrun

/-- A node that is told no role stays what it is. -/
theorem Leads.membership (h : t.Leads u) : u.membership = t.membership := by
  obtain ⟨events, htold, hrun⟩ := h
  induction events generalizing t with
  | nil =>
    cases hrun
    rfl
  | cons e events ih =>
    obtain ⟨v, hnext, hrest⟩ := Option.bind_eq_some_iff.mp hrun
    rw [ih (fun e' he' => htold e' (List.mem_cons_of_mem e he')) hrest]
    rcases next?_cases hnext with ⟨_, _, _, rfl, rfl⟩ | ⟨_, _, _, _, _, _, rfl, -, -, rfl⟩ |
      ⟨_, _, rfl, -, -, rfl⟩ | ⟨call, rfl, rfl⟩
    · rfl
    · rfl
    · rfl
    · exact absurd rfl (htold (.role call) List.mem_cons_self call)

/-! ## One job alone -/

/-- The node in which one job stands somewhere else, with other locks and another ledger. -/
def moved (t : Traffic) (n : Nat) (job : Job) (locks : LockTable) (ledger : Ledger) : Traffic :=
  { t with ledger, locks, jobs := t.jobs.set n job }

theorem moved_self (hn : t.jobs[n]? = some job) (locks : LockTable) (ledger : Ledger) :
    t.moved n job locks ledger = { t with locks, ledger } := by
  obtain ⟨hlt, rfl⟩ := List.getElem?_eq_some_iff.mp hn
  rw [moved, List.set_getElem_self]

theorem moved_job (hn : n < t.jobs.length) : (t.moved n job locks ledger).jobs[n]? = some job :=
  List.getElem?_set_self hn

theorem act_leads (hn : n < t.jobs.length)
    (h : (t.moved n job locks ledger).act? job a = some (job', locks', ledger')) :
    (t.moved n job locks ledger).Leads (t.moved n job' locks' ledger') := by
  refine Leads.of_next (e := .act n a) ?_ fun _ => Event.noConfusion
  simp only [next?, moved_job hn, Option.bind_some, h, Option.map_some]
  simp only [moved, List.set_set]

theorem next?_locks {l : Locks.Event} (hspares : spares t.seats l = true)
    (hl : t.locks.next? l = some locks) : t.next? (.locks l) = some { t with locks } := by
  simp only [next?, hspares, ↓reduceIte, hl, Option.map_some]

theorem drift_leads (h : locks.Drifts locks') :
    Leads { t with locks } { t with locks := locks' } := by
  refine h.map (fun locks => { t with locks }) fun locks l locks' hquiet hl => ?_
  exact Leads.of_next (next?_locks (spares_of_quiet hquiet) hl) fun _ => Event.noConfusion

theorem goOn_leads (hn : n < t.jobs.length) (o : Order) (k : Nat) (locks : LockTable) (m : Nat)
    (x : Write.Progress (Versioned Inlet) × Ledger) :
    (t.moved n (.working o k x.1) locks x.2).Leads
      (t.moved n (.working o k ((((o.steps t.policy).goOn o.revision)^[m] x).1)) locks
        ((((o.steps t.policy).goOn o.revision)^[m] x).2)) := by
  induction m with
  | zero => exact Leads.refl _ _ _
  | succ m ih =>
    rw [Function.iterate_succ_apply']
    refine ih.trans ?_
    generalize ((o.steps t.policy).goOn o.revision)^[m] x = y
    obtain ⟨progress, ledger⟩ := y
    cases progress with
    | due phase => exact act_leads hn (a := .go) rfl
    | ended outcome => exact Leads.refl _ _ _

/-- An order whose lock is its own is carried out and answered by events. -/
theorem finish_leads (o : Order) (ledger : Ledger) (hn : n < t.jobs.length) (hs : locks.Sound)
    (hholds : locks.holds k = true) :
    (t.moved n (.queued o k) locks ledger).Leads
      (t.moved n (.answered o (o.carryOut t.kind t.policy ledger).1) (locks.release k)
        (o.carryOut t.kind t.policy ledger).2) := by
  have henter : (t.moved n (.queued o k) locks ledger).Leads
      (t.moved n (.working o k (.due .authorizing)) locks ledger) := by
    refine act_leads hn (a := .go) ?_
    simp only [act?, moved, hholds, ↓reduceIte]
  have hwork := goOn_leads hn o k locks 4 (.due .authorizing, ledger)
  rw [Steps.goOn_four] at hwork
  -- The lock is let go of, and what remains of the release happens beside the job.
  obtain ⟨c, hc, hheld⟩ := LockTable.claim?_of_holds hholds
  obtain ⟨hnext, hdrifts⟩ := LockTable.release_drifts hs hc hheld
  have hleave : ∀ (outcome : Outcome) (ledger : Ledger),
      (t.moved n (.working o k (.ended outcome)) locks ledger).Leads
        (t.moved n (afterwards o outcome) (locks.release k) ledger) := by
    intro outcome ledger
    have hlet : (t.moved n (.working o k (.ended outcome)) locks ledger).Leads
        (t.moved n (afterwards o outcome) (locks.letGo k true) ledger) := by
      refine act_leads hn (a := .go) ?_
      simp only [act?, moved, hnext, Option.map_some]
    exact hlet.trans (drift_leads (t := t.moved n (afterwards o outcome) locks ledger) hdrifts)
  refine (henter.trans hwork).trans ((hleave _ _).trans ?_)
  unfold Order.carryOut
  rcases (o.steps t.policy).run o.revision ledger with ⟨⟨f⟩ | ⟨v⟩, ledger'⟩
  · exact Leads.refl _ _ _
  · exact act_leads hn (a := .go) rfl

/-! ## The orders that wait -/

/-- Where no job stands behind a ticket, no order waits under it. -/
theorem filter_waiting {l : List Job} (h : ∀ j ∈ l, j.ticket? ≠ some k) :
    (l.filterMap Job.waiting?).filter (fun w => w.1 ≠ k) = l.filterMap Job.waiting? := by
  refine List.filter_eq_self.mpr ?_
  intro w hw
  obtain ⟨j, hj, hwaiting⟩ := List.mem_filterMap.mp hw
  have hticket := h j hj
  cases j <;> cases hwaiting
  exact decide_eq_true fun heq => hticket (congrArg some heq)

/-- An order that no longer waits is no longer among those that do. -/
theorem waiting_set {l : List Job} (hn : l[n]? = some (.queued o k))
    (hother : ∀ (m : Nat) (j : Job), m ≠ n → l[m]? = some j → j.ticket? ≠ some k)
    (hjob : job.waiting? = none) :
    (l.set n job).filterMap Job.waiting? =
      (l.filterMap Job.waiting?).filter fun w => w.1 ≠ k := by
  induction l generalizing n with
  | nil => cases hn
  | cons j l ih =>
    cases n with
    | zero =>
      obtain rfl := Option.some.inj hn
      have hself : (Job.queued o k).waiting? = some (k, o) := rfl
      have hrest : ∀ j ∈ l, j.ticket? ≠ some k := by
        intro j hj
        obtain ⟨m, hm⟩ := List.mem_iff_getElem?.mp hj
        exact hother (m + 1) j (Nat.succ_ne_zero m) hm
      simp only [List.set_cons_zero, List.filterMap_cons, hjob, hself, List.filter_cons, ne_eq,
        not_true_eq_false, decide_false, Bool.false_eq_true, ↓reduceIte]
      exact (filter_waiting hrest).symm
    | succ n =>
      have hrest := ih hn fun m i hm hi =>
        hother (m + 1) i (fun heq => hm (Nat.succ.inj heq)) hi
      simp only [List.set_cons_succ, List.filterMap_cons, hrest]
      cases hw : j.waiting? with
      | none => rfl
      | some w =>
        have hj : decide (w.1 ≠ k) = true := by
          have hticket := hother 0 j (Nat.succ_ne_zero n).symm rfl
          cases j <;> cases hw
          exact decide_eq_true fun heq => hticket (congrArg some heq)
        simp only [List.filter_cons, hj, ↓reduceIte]

theorem service_moved (ht : t.Orderly) (hn : t.jobs[n]? = some (.queued o k))
    (hjob : job.waiting? = none) :
    (t.moved n job locks ledger).service =
      { t.service with ledger, locks, waiting := t.service.waiting.filter fun w => w.1 ≠ k } := by
  have hwaiting := waiting_set hn
    (fun m j hm hj hticket => hm (ht.apart hj hn hticket rfl)) hjob
  simp only [service, moved, hwaiting]

theorem exists_queued (h : t.service.waiting.lookup k = some o) :
    ∃ n : Nat, t.jobs[n]? = some (.queued o k) := by
  obtain ⟨before, after, hwaiting, -⟩ := List.lookup_eq_some_iff.mp h
  have hmem : (k, o) ∈ t.service.waiting := by
    rw [hwaiting]
    exact List.mem_append_right _ List.mem_cons_self
  obtain ⟨job, hjob, hw⟩ := List.mem_filterMap.mp hmem
  obtain ⟨n, hn⟩ := List.mem_iff_getElem?.mp hjob
  cases job <;> cases hw
  exact ⟨n, hn⟩

/-- Where no order waits under a ticket whose claim may still be given up, no job stands behind the
claim. -/
theorem ticket?_ne_of_lookup (ht : t.Orderly) (h : t.service.waiting.lookup k = none) {c : Claim}
    (hc : t.locks.claim? k = some c) (hstage : c.stage.isSuspended = true) (hjob : job ∈ t.jobs) :
    job.ticket? ≠ some k := by
  intro hticket
  cases job with
  | queued o k' =>
    obtain rfl : k' = k := Option.some.inj hticket
    have hmem : (k', o) ∈ t.service.waiting := List.mem_filterMap.mpr ⟨_, hjob, rfl⟩
    have hne := List.lookup_eq_none_iff.mp h _ hmem
    simp only [bne_self_eq_false, Bool.false_eq_true] at hne
  | working o k' progress =>
    obtain rfl : k' = k := Option.some.inj hticket
    obtain ⟨n, hn⟩ := List.mem_iff_getElem?.mp hjob
    obtain ⟨d, hd, -, hheld⟩ := ht.held hn
    obtain rfl := Option.some.inj (hc.symm.trans hd)
    rw [hheld] at hstage
    cases hstage
  | _ => cases hticket

/-! ## The operations of the service -/

/-- To resume an order is a course of events, by which its job is answered if it has its lock. -/
theorem resume_leads (ht : t.Orderly) (k : Nat) :
    ∃ u, t.Leads u ∧ u.service = (t.service.resume k).2 ∧
      ∀ outcome, (t.service.resume k).1 = some outcome → ∃ (n : Nat) (o : Order),
        t.jobs[n]? = some (.queued o k) ∧ u.jobs[n]? = some (.answered o outcome) := by
  have hdrifts := LockTable.resume_drifts t.locks k
  have hlocks : t.Leads { t with locks := t.locks.resume k } := drift_leads (t := t) hdrifts
  cases hlookup : t.service.waiting.lookup k with
  | none =>
    refine ⟨_, hlocks, ?_, ?_⟩
    · simp only [Service.resume, hlookup]
      rfl
    · intro outcome houtcome
      simp only [Service.resume, hlookup] at houtcome
      cases houtcome
  | some o =>
    obtain ⟨n, hn⟩ := exists_queued hlookup
    have hlt : n < t.jobs.length := (List.getElem?_eq_some_iff.mp hn).1
    by_cases hholds : (t.locks.resume k).holds k = true
    · have hfinish := finish_leads o t.ledger hlt (hdrifts.sound ht.sound) hholds
      rw [moved_self hn] at hfinish
      refine ⟨_, hlocks.trans hfinish, ?_, ?_⟩
      · rw [service_moved ht hn rfl]
        simp only [Service.resume, hlookup, service_locks, hholds, ↓reduceIte]
        rfl
      · intro outcome houtcome
        simp only [Service.resume, hlookup, service_locks, hholds, ↓reduceIte] at houtcome
        obtain rfl := Option.some.inj houtcome
        exact ⟨n, o, hn, moved_job hlt⟩
    · refine ⟨_, hlocks, ?_, ?_⟩
      · simp only [Service.resume, hlookup, service_locks, hholds, Bool.false_eq_true, ↓reduceIte]
        rfl
      · intro outcome houtcome
        simp only [Service.resume, hlookup, service_locks, hholds, Bool.false_eq_true,
          ↓reduceIte] at houtcome
        cases houtcome

/-- The node with one more job. -/
def joined (t : Traffic) (job : Job) : Traffic := { t with jobs := t.jobs ++ [job] }

theorem length_lt_joined (t : Traffic) (job : Job) :
    t.jobs.length < (t.joined job).jobs.length := by
  rw [joined, List.length_append]
  exact Nat.lt_succ_self _

theorem moved_joined (locks : LockTable) (ledger : Ledger) :
    (t.joined job).moved t.jobs.length job' locks ledger =
      { t with locks, ledger, jobs := t.jobs ++ [job'] } := by
  simp only [joined, moved, List.set_append_right _ _ (Nat.le_refl _), Nat.sub_self,
    List.set_cons_zero]

/-- A request comes by an event, and its job goes on from there. -/
theorem request_leads {caller id : String} {op : Operation} (h : t.receive caller id op = job)
    (hgo : ((t.joined job).moved t.jobs.length job t.locks t.ledger).Leads u) : t.Leads u := by
  rw [moved_joined] at hgo
  have hnext : t.next? (.request caller id op) = some { t with jobs := t.jobs ++ [job] } := by
    rw [next?, h]
  exact Leads.trans (Leads.of_next hnext fun _ => Event.noConfusion) hgo

theorem service_joined (locks : LockTable) (ledger : Ledger) :
    ((t.joined job).moved t.jobs.length job' locks ledger).service =
      { t.service with locks, ledger, waiting := t.service.waiting ++ job'.waiting?.toList } := by
  rw [moved_joined]
  simp only [service, List.filterMap_append, List.filterMap_cons, List.filterMap_nil]
  cases job'.waiting? <;> rfl

/-- To show an inlet is a course of events. -/
theorem get_leads {caller id caller' id' : String} {op : Operation}
    (h : t.receive caller' id' op = .reading caller id false) :
    ∃ u, t.Leads u ∧ u.service = (t.service.get caller id).2 ∧
      u.jobs[t.jobs.length]? = some (.shown caller id (t.service.get caller id).1) := by
  have hlt := length_lt_joined t (.reading caller id false)
  refine ⟨(t.joined (.reading caller id false)).moved t.jobs.length
    (.shown caller id (t.service.get caller id).1) t.locks (t.service.get caller id).2.ledger,
    request_leads h ?_, ?_, moved_job hlt⟩
  · rcases hauthorize : t.ledger.authorize t.policy caller id .read with ⟨⟨f⟩ | ⟨⟩, ledger⟩
    · refine act_leads hlt (a := .go) ?_
      simp only [act?, look, joined, moved, Service.get, Ledger.get, service_ledger,
        service_policy, hauthorize, Bool.false_eq_true, ↓reduceIte]
    · have hcleared : ((t.joined (.reading caller id false)).moved t.jobs.length
          (.reading caller id false) t.locks t.ledger).Leads
          ((t.joined (.reading caller id false)).moved t.jobs.length
            (.reading caller id true) t.locks ledger) := by
        refine act_leads hlt (a := .go) ?_
        simp only [act?, look, joined, moved, hauthorize, Bool.false_eq_true, ↓reduceIte]
      refine hcleared.trans (act_leads hlt (a := .go) ?_)
      simp only [act?, look, joined, moved, store, Service.get, Ledger.get, service_ledger,
        service_policy, hauthorize, ↓reduceIte]
  · rw [service_joined]
    simp only [Job.waiting?, Option.toList_none, List.append_nil]
    rfl

/-- To take an order is a course of events, by which its job is answered, or waits under its
ticket. -/
theorem submit_leads (ht : t.Orderly) (now : Nat) {caller id : String} {op : Operation}
    (h : t.receive caller id op = .admitted o) :
    ∃ u, t.Leads u ∧ u.service = (t.service.submit now o).2 ∧
      u.jobs[t.jobs.length]? = some (match (t.service.submit now o).1 with
        | .ok outcome => .answered o outcome
        | .error ticket => .queued o ticket) := by
  have hlt := length_lt_joined t (.admitted o)
  have harrive : ((t.joined (.admitted o)).moved t.jobs.length (.admitted o) t.locks
      t.ledger).Leads ((t.joined (.admitted o)).moved t.jobs.length
        (.queued o (t.locks.arrive o.id t.patience).1) (t.locks.arrive o.id t.patience).2
        t.ledger) := act_leads hlt (a := .go) rfl
  have hdrifts := LockTable.acquire_drifts ht.sound now o.id t.patience
  have hqueue : t.Leads ((t.joined (.admitted o)).moved t.jobs.length
      (.queued o (t.locks.acquire now o.id t.patience).1)
      (t.locks.acquire now o.id t.patience).2 t.ledger) :=
    request_leads h (harrive.trans (drift_leads (t := (t.joined (.admitted o)).moved t.jobs.length
      (.queued o (t.locks.arrive o.id t.patience).1) t.locks t.ledger) hdrifts))
  by_cases hholds : (t.locks.acquire now o.id t.patience).2.holds
      (t.locks.acquire now o.id t.patience).1 = true
  · have hsound := hdrifts.sound (ht.sound.arrive o.id t.patience)
    have hfinish := finish_leads o t.ledger hlt hsound hholds
    have hfresh : (t.service.waiting.filter fun w =>
        w.1 ≠ (t.locks.acquire now o.id t.patience).1) = t.service.waiting := by
      refine filter_waiting ?_
      intro j hj hticket
      obtain ⟨n, hn⟩ := List.mem_iff_getElem?.mp hj
      exact absurd (ht.ticket_lt hn hticket) (Nat.not_lt.mpr (LockTable.fresh_le_arrive t.locks o.id t.patience))
    refine ⟨_, hqueue.trans hfinish, ?_, ?_⟩
    · rw [service_joined]
      simp only [Job.waiting?, Option.toList_none, List.append_nil]
      simp only [Service.submit, service_locks, service_patience, hholds, ↓reduceIte]
      exact congrArg (Service.mk t.kind t.policy t.patience _ _) hfresh.symm
    · rw [moved_job hlt]
      simp only [Service.submit, service_locks, service_patience, hholds, ↓reduceIte]
      rfl
  · refine ⟨_, hqueue, ?_, ?_⟩
    · rw [service_joined]
      simp only [Service.submit, service_locks, service_patience, hholds, Bool.false_eq_true,
        ↓reduceIte]
      rfl
    · rw [moved_job hlt]
      simp only [Service.submit, service_locks, service_patience, hholds, Bool.false_eq_true,
        ↓reduceIte]

/-- A claim that quits by the act of a job, or by an event at the locks where no job stands behind
it, quits by a course of events. -/
theorem quit_leads (ht : t.Orderly) {c : Claim} {l : Locks.Event} {between : LockTable}
    (hc : t.locks.claim? k = some c) (hstage : c.stage.isSuspended = true)
    (hquitter : l.quitter? = some k) (hnext : t.locks.next? l = some between)
    (hdrifts : between.Drifts locks') (a : Act) (quit : Order → Job)
    (hact : ∀ o, t.act? (.queued o k) a = some (quit o, between, t.ledger))
    (hquit : ∀ o, (quit o).waiting? = none) :
    ∃ u, t.Leads u ∧
      u.service = { t.service with
        locks := locks', waiting := t.service.waiting.filter fun w => w.1 ≠ k } ∧
      ∀ o, t.service.waiting.lookup k = some o → ∃ n : Nat,
        t.jobs[n]? = some (.queued o k) ∧ u.jobs[n]? = some (quit o) := by
  cases hlookup : t.service.waiting.lookup k with
  | none =>
    have hfree : ∀ j ∈ t.jobs, j.ticket? ≠ some k := fun j hj =>
      ticket?_ne_of_lookup ht hlookup hc hstage hj
    have hspares : spares t.seats l = true := by
      refine spares_of_ne hquitter fun s hs heq => ?_
      obtain ⟨j, hj, hseat⟩ := List.mem_map.mp hs
      exact hfree j hj (by rw [Job.ticket?, hseat, Option.map_some, heq])
    have hfirst : t.Leads { t with locks := between } :=
      Leads.of_next (next?_locks hspares hnext) fun _ => Event.noConfusion
    refine ⟨_, hfirst.trans (drift_leads (t := t) hdrifts), ?_, ?_⟩
    · exact congrArg (Service.mk t.kind t.policy t.patience t.ledger locks')
        (filter_waiting hfree).symm
    · intro o ho
      cases ho
  | some o =>
    obtain ⟨n, hn⟩ := exists_queued hlookup
    have hlt : n < t.jobs.length := (List.getElem?_eq_some_iff.mp hn).1
    have hself : t.moved n (.queued o k) t.locks t.ledger = t := moved_self hn _ _
    have hmoved : (t.moved n (.queued o k) t.locks t.ledger).Leads
        (t.moved n (quit o) between t.ledger) := by
      refine act_leads hlt (a := a) ?_
      rw [hself]
      exact hact o
    rw [hself] at hmoved
    refine ⟨_, hmoved.trans (drift_leads (t := t.moved n (quit o) between t.ledger) hdrifts), ?_,
      ?_⟩
    · exact service_moved ht hn (hquit o)
    · intro o' ho'
      obtain rfl := Option.some.inj ho'
      exact ⟨n, hn, moved_job hlt⟩

/-- To turn down an order whose time is up is a course of events. -/
theorem expire_leads (ht : t.Orderly) {c : Claim} (hc : t.locks.claim? k = some c)
    (hwaits : c.stage.waits = true) :
    ∃ u, t.Leads u ∧ u.service = (t.service.expire k).2 ∧
      ∀ outcome, (t.service.expire k).1 = some outcome → ∃ (n : Nat) (o : Order),
        t.jobs[n]? = some (.queued o k) ∧ u.jobs[n]? = some (.answered o outcome) := by
  obtain ⟨hnext, hdrifts⟩ := LockTable.expire_drifts hc hwaits
  obtain ⟨u, hu, hservice, hjob⟩ := quit_leads ht hc (Stage.isSuspended_of_waits hwaits) rfl hnext
    hdrifts .lapse (fun o => .answered o (.error (LockTable.busy o.id t.patience)))
    (fun o => by simp only [act?, hnext, Option.map_some]) (fun o => rfl)
  refine ⟨u, hu, ?_, ?_⟩
  · rw [hservice, Service.expire]
    cases hlookup : t.service.waiting.lookup k with
    | none =>
      have hkept : t.service.waiting.filter (fun w => w.1 ≠ k) = t.service.waiting := by
        refine List.filter_eq_self.mpr ?_
        intro w hw
        have hne := List.lookup_eq_none_iff.mp hlookup w hw
        exact decide_eq_true fun heq => by simp only [heq, bne_self_eq_false] at hne; cases hne
      simp only [hkept]
      rfl
    | some o => rfl
  · intro outcome houtcome
    rw [Service.expire] at houtcome
    cases hlookup : t.service.waiting.lookup k with
    | none =>
      rw [hlookup] at houtcome
      cases houtcome
    | some o =>
      rw [hlookup] at houtcome
      obtain ⟨n, hn, hanswered⟩ := hjob o hlookup
      obtain rfl := Option.some.inj houtcome
      exact ⟨n, o, hn, hanswered⟩

/-- To drop an order whose client goes away is a course of events. -/
theorem cancel_leads (ht : t.Orderly) {c : Claim} (hc : t.locks.claim? k = some c)
    (hstage : c.stage.isSuspended = true) : ∃ u, t.Leads u ∧ u.service = t.service.cancel k := by
  obtain ⟨hnext, hdrifts⟩ := LockTable.cancel_drifts ht.sound hc hstage
  obtain ⟨u, hu, hservice, -⟩ := quit_leads ht hc hstage rfl hnext hdrifts .drop .dropped
    (fun o => by simp only [act?, hnext, Option.map_some]) (fun o => rfl)
  exact ⟨u, hu, hservice⟩

/-! ## The service as a whole -/

/-- A demand that a service meets is a course of events at a node that hands nothing on. -/
theorem meet?_leads (ht : t.Orderly) (hforward : t.membership.mustForward = false) {d : Demand}
    {s : Service} (h : t.service.meet? d = some s) : ∃ u, t.Leads u ∧ u.service = s := by
  cases d with
  | operate now caller id op =>
    simp only [Service.meet?, service_kind] at h
    cases htask : op.toTask t.kind caller id with
    | error f =>
      rw [htask] at h
      have hreceive : t.receive caller id op = .refused f := by
        rw [receive, htask]
      refine ⟨_, request_leads hreceive (Leads.refl _ _ _), ?_⟩
      rw [service_joined]
      simp only [Job.waiting?, Option.toList_none, List.append_nil]
      exact Option.some.inj h
    | ok task =>
      rw [htask] at h
      obtain rfl := Option.some.inj h
      cases task with
      | view caller' id' =>
        have hreceive : t.receive caller id op = .reading caller' id' false := by
          simp only [receive, htask, hforward, Bool.false_eq_true, ↓reduceIte]
        obtain ⟨u, hu, hservice, -⟩ := get_leads hreceive
        exact ⟨u, hu, hservice⟩
      | order o =>
        have hreceive : t.receive caller id op = .admitted o := by
          simp only [receive, htask, hforward, Bool.false_eq_true, ↓reduceIte]
        obtain ⟨u, hu, hservice, -⟩ := submit_leads ht now hreceive
        exact ⟨u, hu, hservice⟩
  | resume k =>
    obtain ⟨u, hu, hservice, -⟩ := resume_leads ht k
    exact ⟨u, hu, hservice.trans (Option.some.inj h)⟩
  | expire k =>
    obtain ⟨⟨c, hc, hwaits⟩, rfl⟩ := LockTable.map_claimAt?_eq_some.mp h
    obtain ⟨u, hu, hservice, -⟩ := expire_leads ht hc hwaits
    exact ⟨u, hu, hservice⟩
  | cancel k =>
    obtain ⟨⟨c, hc, hstage⟩, rfl⟩ := LockTable.map_claimAt?_eq_some.mp h
    exact cancel_leads ht hc hstage

/-- **The service is such a node.** Whatever a service is asked to do from its start on, one demand
after another, some course of events at a node that hands nothing on comes to the same inlets, the
same trail, the same locks and the same orders that wait. -/
theorem exists_run_of_demands {kind : String} {policy : Policy} {patience : Duration}
    {membership : Membership} {store : Store} {fresh : Nat} {demands : List Demand} {s : Service}
    (hforward : membership.mustForward = false)
    (h : course? Service.meet? (Service.start kind policy patience store fresh) demands = some s) :
    ∃ events u, (start kind policy patience membership store fresh).run? events = some u ∧
      u.service = s := by
  have hleads : ∃ u, (start kind policy patience membership store fresh).Leads u ∧
      u.service = s := by
    refine course?_invariant (P := fun s => ∃ u,
      (start kind policy patience membership store fresh).Leads u ∧ u.service = s)
      ⟨_, Leads.refl _ _ _, rfl⟩ ?_ h
    rintro _ d s ⟨t, ht, rfl⟩ hmeet
    have halone : t.membership.mustForward = false := by
      rw [ht.membership]
      exact hforward
    obtain ⟨u, hu, hservice⟩ := meet?_leads (ht.orderly Orderly.start) halone hmeet
    exact ⟨u, ht.trans hu, hservice⟩
  obtain ⟨u, ⟨events, -, hrun⟩, hservice⟩ := hleads
  exact ⟨events, u, hrun, hservice⟩

end Traffic

end InletRegistry.Registry
