import InletRegistry.Locks.Session
import InletRegistry.Proofs.Locks.Sound

/-!
# Acting alone is a course of events

`acquire`, `resume`, `release`, `expire` and `cancel` are what a claim does while no other claim
moves. Each of them leads from a sound table to where some course of events leads, and so does every
step of a session. What holds of every course therefore holds of the tables that are run.
-/

namespace InletRegistry.LockTable

open InletRegistry.Locks InletRegistry.Time

variable {t u v : LockTable} {ticket now : Nat} {id : String} {patience : Duration} {c d : Claim}
  {e : Event} {b : Bool}

/-- That some course of events leads from one table to another. -/
abbrev Leads (t u : LockTable) : Prop := InletRegistry.Leads next? (fun _ => True) t u

/-- That such a course makes no claim quit. -/
abbrev Drifts (t u : LockTable) : Prop := InletRegistry.Leads next? (fun e => e.quitter? = none) t u

theorem Drifts.leads (h : t.Drifts u) : t.Leads u := h.mono fun _ _ => trivial

theorem Leads.sound (h : t.Leads u) (hs : t.Sound) : u.Sound := by
  obtain ⟨events, -, hrun⟩ := h
  exact hs.run hrun

theorem Drifts.sound (h : t.Drifts u) (hs : t.Sound) : u.Sound := h.leads.sound hs

/-! ## The steps of one claim -/

theorem claim?_letGo (hc : t.claim? ticket = some c) :
    (t.letGo ticket b).claim? ticket = some { c with stage := .leaving b } := by
  rw [letGo, claim?_setStage, hc, Option.map_some,
    Claim.moved_of_ticket (mem_of_claim? hc).2]

/-- The mutex of a claim whose own it was is free once the claim has let go. -/
theorem isFree_letGo (hs : t.Sound) (hc : t.claim? ticket = some c) (hown : c.stage.owns = true) :
    (t.letGo ticket b).isFree c.mutex = true := by
  obtain ⟨hcmem, hcticket⟩ := mem_of_claim? hc
  rw [isFree_iff]
  intro d' hd' hm
  obtain ⟨d, hd, rfl⟩ := mem_setStage.mp hd'
  rw [Claim.moved_mutex] at hm
  by_cases hdt : d.ticket = ticket
  · rw [Claim.moved_of_ticket hdt]
    rfl
  · rw [Claim.moved_of_ne hdt]
    cases hdown : d.stage.owns with
    | false => rfl
    | true => exact absurd ((hs.exclusive d hd c hcmem hm hdown hown).trans hcticket) hdt

/-- A free mutex is handed on by an event, if it is handed on at all. -/
theorem handOn_drifts (hs : t.Sound) {mutex : Nat} (hfree : t.isFree mutex = true) :
    t.Drifts (t.handOn mutex) := by
  unfold handOn
  split
  next d hfound =>
    have hd := List.find?_some
      (p := fun c : Claim => (decide (c.mutex = mutex) && c.stage.waits)) hfound
    obtain ⟨hm, hwaits⟩ := Bool.and_eq_true_iff.mp hd
    have hclaim : t.claim? d.ticket = some d :=
      hs.claim?_eq_some.mpr ⟨List.mem_of_find?_eq_some hfound, rfl⟩
    have hplace : t.claimAt? d.ticket Stage.waits = some d := claimAt?_eq_some.mpr ⟨hclaim, hwaits⟩
    refine Leads.of_next (e := .hand d.ticket) ?_ rfl
    rw [next?, hplace, Option.filter_some, of_decide_eq_true hm, hfree]
    rfl
  next => exact Leads.refl _ _ t

/-- Handing a mutex on moves no claim but one that waits. -/
theorem claim?_handOn (hc : t.claim? ticket = some c) (hwaits : c.stage.waits = false)
    (hs : t.Sound) (mutex : Nat) : (t.handOn mutex).claim? ticket = some c := by
  unfold handOn
  split
  next d hfound =>
    have hd := List.find?_some
      (p := fun c : Claim => (decide (c.mutex = mutex) && c.stage.waits)) hfound
    have hne : c.ticket ≠ d.ticket := by
      intro heq
      obtain rfl := hs.eq_of_ticket (mem_of_claim? hc).1 (List.mem_of_find?_eq_some hfound) heq
      rw [(Bool.and_eq_true_iff.mp hd).2] at hwaits
      cases hwaits
    rw [hand, claim?_setStage, hc, Option.map_some, Claim.moved_of_ne hne]
  next => exact hc

/-- A claim that leaves departs by an event. -/
theorem depart_drifts (hc : t.claim? ticket = some c) (hleaving : c.stage.isLeaving = true) :
    t.Drifts (t.depart ticket) := by
  refine Leads.of_next (e := .depart ticket) ?_ rfl
  exact map_claimAt?_eq_some.mpr ⟨⟨c, hc, hleaving⟩, rfl⟩

/-- A claim that leaves and will look back departs and looks back by events. -/
theorem depart_lookBack_drifts (hc : t.claim? ticket = some c) (hstage : c.stage = .leaving true) :
    t.Drifts ((t.depart ticket).lookBack c.id) := by
  refine (depart_drifts hc (by rw [hstage]; rfl)).trans
    (Leads.of_next (e := .lookBack c.id) ?_ rfl)
  have hmem : c.id ∈ (t.depart ticket).lookbacks := by
    rw [depart_lookbacks hc, if_pos hstage]
    exact List.mem_append_right _ List.mem_cons_self
  rw [next?, if_pos hmem]

/-- A mutex that its claim has let go of is handed on, and the claim only keeps its reference. -/
theorem letGo_handOn_drifts (hs : t.Sound) (hc : t.claim? ticket = some c)
    (hown : c.stage.owns = true) (hlet : (t.letGo ticket b).Sound) :
    (t.letGo ticket b).Drifts ((t.letGo ticket b).handOn c.mutex) ∧
      ((t.letGo ticket b).handOn c.mutex).claim? ticket =
        some { c with stage := .leaving b } :=
  ⟨handOn_drifts hlet (isFree_letGo hs hc hown), claim?_handOn (claim?_letGo hc) rfl hlet _⟩

/-! ## Acting alone -/

/-- To acquire a lock is to arrive and to ask. -/
theorem acquire_drifts (hs : t.Sound) (now : Nat) (id : String) (patience : Duration) :
    (t.arrive id patience).2.Drifts (t.acquire now id patience).2 := by
  refine Leads.of_next (e := .ask now (t.arrive id patience).1) ?_ rfl
  exact map_claimAt?_eq_some.mpr ⟨⟨_, claim?_arrive hs, rfl⟩, rfl⟩

/-- Whoever acquires a lock holds it or waits for it. -/
theorem claim?_acquire (hs : t.Sound) (now : Nat) (id : String) (patience : Duration) :
    ∃ c, (t.acquire now id patience).2.claim? (t.acquire now id patience).1 = some c ∧
      (c.stage = .held ∨ c.stage.waits = true) := by
  have hc : (t.arrive id patience).2.claim? (t.arrive id patience).1 =
      some ⟨(t.arrive id patience).1, id, (t.mutexFor id).1, patience, .arrived⟩ :=
    claim?_arrive hs
  simp only [acquire, ask, hc, claim?_setStage, Option.map_some, Claim.moved, ↓reduceIte]
  refine ⟨_, rfl, ?_⟩
  split
  · exact Or.inl rfl
  · exact Or.inr rfl

/-- To resume is an event where a claim has been handed the mutex, and nothing elsewhere. -/
theorem resume_drifts (t : LockTable) (ticket : Nat) : t.Drifts (t.resume ticket) := by
  cases hc : t.claim? ticket with
  | none =>
    simp only [resume, hc]
    exact Leads.refl _ _ t
  | some c =>
    by_cases hstage : c.stage = .handed
    · refine Leads.of_next (e := .resume ticket) ?_ rfl
      exact map_claimAt?_eq_some.mpr ⟨⟨c, hc, decide_eq_true hstage⟩, rfl⟩
    · simp only [resume, hc, hstage, ↓reduceIte]
      exact Leads.refl _ _ t

/-- A holder lets go by an event, and the rest of its release follows. -/
theorem release_drifts (hs : t.Sound) (hc : t.claim? ticket = some c) (hheld : c.stage = .held) :
    t.next? (.release ticket) = some (t.letGo ticket true) ∧
      (t.letGo ticket true).Drifts (t.release ticket) := by
  have hnext : t.next? (.release ticket) = some (t.letGo ticket true) :=
    map_claimAt?_eq_some.mpr ⟨⟨c, hc, decide_eq_true hheld⟩, rfl⟩
  obtain ⟨hdrifts, hclaim⟩ :=
    letGo_handOn_drifts hs hc (by rw [hheld]; rfl) (hs.next hnext)
  have hgone := depart_lookBack_drifts hclaim rfl
  refine ⟨hnext, ?_⟩
  simp only [release, hc, hheld, ↓reduceIte]
  exact hdrifts.trans hgone

/-- A claim that waits lapses by an event, and the rest of its expiry follows. -/
theorem expire_drifts (hc : t.claim? ticket = some c) (hwaits : c.stage.waits = true) :
    t.next? (.lapse ticket) = some (t.letGo ticket true) ∧
      (t.letGo ticket true).Drifts (t.expire ticket) := by
  have hsuspended := Stage.isSuspended_of_waits hwaits
  have hgone := depart_lookBack_drifts (claim?_letGo hc (b := true)) rfl
  refine ⟨map_claimAt?_eq_some.mpr ⟨⟨c, hc, hsuspended⟩, rfl⟩, ?_⟩
  simp only [expire, hc, hwaits, ↓reduceIte]
  exact hgone

/-- A claim that may be given up is cancelled by an event, and the rest follows. -/
theorem cancel_drifts (hs : t.Sound) (hc : t.claim? ticket = some c)
    (hsuspended : c.stage.isSuspended = true) :
    t.next? (.cancel ticket) = some (t.letGo ticket false) ∧
      (t.letGo ticket false).Drifts (t.cancel ticket) := by
  have hnext : t.next? (.cancel ticket) = some (t.letGo ticket false) :=
    map_claimAt?_eq_some.mpr ⟨⟨c, hc, hsuspended⟩, rfl⟩
  refine ⟨hnext, ?_⟩
  rcases Stage.waits_or_handed hsuspended with hwaits | hhanded
  · have hgone := depart_drifts (claim?_letGo hc (b := false)) rfl
    simp only [cancel, hc, hwaits, ↓reduceIte]
    exact hgone
  · obtain ⟨hdrifts, hclaim⟩ :=
      letGo_handOn_drifts hs hc (by rw [hhanded]; rfl) (hs.next hnext)
    simp only [cancel, hc, hhanded, Stage.waits, Bool.false_eq_true, ↓reduceIte]
    exact hdrifts.trans (depart_drifts hclaim rfl)

theorem acquire_leads (hs : t.Sound) (now : Nat) (id : String) (patience : Duration) :
    t.Leads (t.acquire now id patience).2 :=
  (Leads.of_next (e := .arrive id patience) rfl trivial).trans
    (acquire_drifts hs now id patience).leads

theorem release_leads (hs : t.Sound) (ticket : Nat) : t.Leads (t.release ticket) := by
  cases hc : t.claim? ticket with
  | none =>
    simp only [release, hc]
    exact Leads.refl _ _ t
  | some c =>
    by_cases hheld : c.stage = .held
    · obtain ⟨hnext, hdrifts⟩ := release_drifts hs hc hheld
      exact (Leads.of_next hnext trivial).trans hdrifts.leads
    · simp only [release, hc, hheld, ↓reduceIte]
      exact Leads.refl _ _ t

theorem expire_leads (t : LockTable) (ticket : Nat) : t.Leads (t.expire ticket) := by
  cases hc : t.claim? ticket with
  | none =>
    simp only [expire, hc]
    exact Leads.refl _ _ t
  | some c =>
    by_cases hwaits : c.stage.waits = true
    · obtain ⟨hnext, hdrifts⟩ := expire_drifts hc hwaits
      exact (Leads.of_next hnext trivial).trans hdrifts.leads
    · simp only [expire, hc, hwaits, Bool.false_eq_true, ↓reduceIte]
      exact Leads.refl _ _ t

theorem cancel_leads (hs : t.Sound) (ticket : Nat) : t.Leads (t.cancel ticket) := by
  cases hc : t.claim? ticket with
  | none =>
    simp only [cancel, hc]
    exact Leads.refl _ _ t
  | some c =>
    by_cases hsuspended : c.stage.isSuspended = true
    · obtain ⟨hnext, hdrifts⟩ := cancel_drifts hs hc hsuspended
      exact (Leads.of_next hnext trivial).trans hdrifts.leads
    · have hkept : t.cancel ticket = t := by
        cases hstage : c.stage with
        | waiting | handed =>
          rw [hstage] at hsuspended
          exact absurd rfl hsuspended
        | arrived | held | leaving =>
          simp only [cancel, hc, hstage, Stage.waits, Bool.false_eq_true, ↓reduceIte, reduceCtorEq]
      rw [hkept]
      exact Leads.refl _ _ t

end InletRegistry.LockTable

/-! ## Sessions -/

namespace InletRegistry.Locks.Session

open InletRegistry.Time

variable {s s' : Session} {t : LockTable}

@[simp] theorem tell_table (w : Waiter) (o : Outcome) : (s.tell w o).table = s.table := by
  unfold tell
  split <;> rfl

section Leads

/-! The lemmas of this section follow the locks from a sound table `t` on. -/

variable (hs : t.Sound) (h : t.Leads s.table)

include hs h

/-- A guard put into a slot releases the one that was there, if there was one. -/
theorem putGuard_leads (slot : String) (ticket : Nat) : t.Leads (s.putGuard slot ticket).table := by
  unfold putGuard
  cases s.guards.lookup slot with
  | none => exact h
  | some old => exact h.trans (LockTable.release_leads (h.sound hs) old)

theorem granted_leads (ticket : Nat) (id : String) : t.Leads (s.granted ticket id).table := by
  unfold granted
  split
  next w _ =>
    rw [tell_table]
    exact putGuard_leads hs h w.slot ticket
  next => exact h

theorem runOne?_leads (hrun : s.runOne? = some s') : t.Leads s'.table := by
  unfold runOne? at hrun
  split at hrun
  next c _ =>
    rw [← Option.some.inj hrun]
    exact granted_leads hs (h.trans (LockTable.resume_drifts s.table c.ticket).leads) c.ticket c.id
  next =>
    split at hrun
    next c _ =>
      have hexpire := h.trans (LockTable.expire_leads s.table c.ticket)
      simp only at hrun
      split at hrun
      · rw [← Option.some.inj hrun, tell_table]
        exact hexpire
      · rw [← Option.some.inj hrun]
        exact hexpire
    next => cases hrun

theorem settleFor_leads (n : Nat) : t.Leads (settleFor n s).table := by
  induction n generalizing s with
  | zero => exact h
  | succ n ih =>
    rw [settleFor]
    split
    next s' hrun => exact ih (runOne?_leads hs h hrun)
    next => exact h

theorem settle_leads : t.Leads s.settle.table := settleFor_leads hs h _

theorem awaitFor_leads (n : Nat) : t.Leads (awaitFor n s).table := by
  induction n generalizing s with
  | zero => exact h
  | succ n ih =>
    rw [awaitFor]
    split
    next deadline _ _ => exact ih (settle_leads hs h)
    next => exact h

theorem begin_leads (id slot : String) (patience : Duration) (inBackground : Bool) :
    t.Leads (s.begin id slot patience inBackground).table := by
  have hacquire := h.trans (LockTable.acquire_leads (h.sound hs) s.now id patience)
  simp only [begin]
  split
  · exact granted_leads hs hacquire _ id
  · exact hacquire

/-- Every step of a session is a course of events. -/
theorem take_leads (step : Step) : t.Leads (s.take step).2.table := by
  have hstart : t.Leads { s with answer := none, happenings := [] }.table := h
  cases step with
  | acquire id slot patience =>
    exact awaitFor_leads hs (settle_leads hs (begin_leads hs hstart id slot patience false)) _
  | spawn id slot patience =>
    exact settle_leads hs (begin_leads hs hstart id slot patience true)
  | release slot =>
    simp only [take]
    split
    · exact settle_leads hs hstart
    next ticket _ =>
      exact settle_leads hs (h.trans (LockTable.release_leads (h.sound hs) ticket))
  | cancel slot =>
    simp only [take]
    split
    · exact settle_leads hs hstart
    next w _ =>
      exact settle_leads hs (h.trans (LockTable.cancel_leads (h.sound hs) w.ticket))
  | advance milliseconds => exact settle_leads hs hstart

end Leads

/-- A session after some steps. -/
def after (s : Session) (steps : List Step) : Session :=
  steps.foldl (fun s step => (s.take step).2) s

/-- A session of any steps ends where some course of events leads. -/
theorem after_leads (hs : t.Sound) (h : t.Leads s.table) (steps : List Step) :
    t.Leads (s.after steps).table := by
  induction steps generalizing s with
  | nil => exact h
  | cons step steps ih => exact ih (take_leads hs h step)

end InletRegistry.Locks.Session
