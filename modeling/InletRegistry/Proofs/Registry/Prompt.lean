import InletRegistry.Proofs.Locks.Retains
import InletRegistry.Proofs.Registry.Failing

/-!
# A service that comes to rest

What the operations of a service come to while no claim is on its way. An order whose lock nobody wants
is carried out and leaves nothing at the locks but the numbers drawn for it; any other order waits.
Whichever way an order that waits comes to its end, its claim is lifted and it waits no more (`lift`).

Two things commute with every operation: to put a past in front of the trail (`since`), and to lift a
claim that waits and that the operation is not about.
-/

namespace InletRegistry.Registry.Service

open InletRegistry.Locks InletRegistry.Lookup InletRegistry.Time

variable {s : Service} {o : Order} {now a k m : Nat} {c : Claim} {task : Task}
  {past : List Audit.Entry}

/-- What holds of a service while no claim is on its way. -/
structure Prompt (s : Service) : Prop where
  locks : s.locks.Prompt
  /-- Orders wait under tickets that have been given out. -/
  given : ∀ w ∈ s.waiting, w.1 < s.locks.fresh

/-- The service with a past in front of its trail. -/
def since (past : List Audit.Entry) (s : Service) : Service :=
  { s with ledger := s.ledger.since past }

/-- The service once a claim is gone, and the order that waited under its ticket. -/
def lift (a : Nat) (s : Service) : Service :=
  { s with locks := s.locks.lift a, waiting := s.waiting.filter (·.1 ≠ a) }

/-- Carries an order out. -/
def carry (s : Service) (o : Order) : Outcome × Service :=
  ((o.carryOut s.kind s.policy s.ledger).1,
    { s with ledger := (o.carryOut s.kind s.policy s.ledger).2 })

/-! ## What the operations come to -/

theorem finish_eq (s : Service) (k : Nat) (o : Order) :
    s.finish k o = ((s.carry o).1, { (s.carry o).2 with
      locks := s.locks.release k
      waiting := s.waiting.filter (·.1 ≠ k) }) := rfl

theorem submit_eq (s : Service) (now : Nat) (o : Order) :
    s.submit now o =
      let (k, locks) := s.locks.acquire now o.id s.patience
      if locks.holds k then
        (.ok (s.carry o).1, ({ s with locks }.finish k o).2)
      else (.error k, { s with locks, waiting := s.waiting ++ [(k, o)] }) := rfl

theorem waiting_of_fresh (h : s.Prompt) (hk : s.locks.fresh ≤ k) :
    s.waiting.filter (·.1 ≠ k) = s.waiting := by
  rw [List.filter_eq_self]
  intro w hw
  have hlt := h.given w hw
  exact decide_eq_true (by omega)

/-- An order whose lock nobody wants is carried out. -/
theorem submit_of_unwanted (h : s.Prompt) (hnone : ∀ c ∈ s.locks.claims, c.id ≠ o.id) :
    s.submit now o = (.ok (s.carry o).1, { (s.carry o).2 with
      locks := { s.locks.evict o.id with fresh := s.locks.fresh + 2 } }) := by
  obtain ⟨hholds, hrelease⟩ := h.locks.release_acquire hnone now s.patience
  have hticket : (s.locks.acquire now o.id s.patience).1 = s.locks.fresh + 1 := by
    rw [LockTable.acquire_of_unwanted h.locks.sound hnone now s.patience]
  rw [hticket] at hholds hrelease
  rw [submit_eq]
  simp only [hticket, hholds, ↓reduceIte, finish_eq, hrelease, waiting_of_fresh h (Nat.le_succ _)]
  rfl

/-- An order whose lock somebody wants waits. -/
theorem submit_of_wanted (h : s.Prompt) (hc : c ∈ s.locks.claims) (hid : c.id = o.id) :
    s.submit now o = (.error (s.locks.fresh + 1),
      { s with
        locks := (s.locks.acquire now o.id s.patience).2
        waiting := s.waiting ++ [(s.locks.fresh + 1, o)] }) := by
  have hacquire := h.locks.acquire_of_wanted hc hid now s.patience
  have hclaim := (h.locks.lift_acquire hc hid now s.patience).1
  have hticket : (s.locks.acquire now o.id s.patience).1 = s.locks.fresh + 1 := by rw [hacquire]
  have hholds : (s.locks.acquire now o.id s.patience).2.holds (s.locks.fresh + 1) = false := by
    simp [LockTable.holds, hclaim]
  simp only [submit, hticket, hholds, Bool.false_eq_true, ↓reduceIte]

/-- An order to which its lock has been handed is carried out, and its claim is lifted. -/
theorem resume_of_order (h : s.Prompt) (hc : s.locks.claim? k = some c) (hhanded : c.stage = .handed)
    (ho : s.waiting.lookup k = some o) :
    s.resume k = (some (s.carry o).1, (s.carry o).2.lift k) := by
  have hheld := (LockTable.resume_of_handed hc hhanded).2
  have hholds : (s.locks.resume k).holds k = true := by simp [LockTable.holds, hheld]
  have hrelease := LockTable.release_resume_eq_lift h.locks hc hhanded
  simp only [resume, ho, hholds, ↓reduceIte, finish, hrelease]
  rfl

/-- A claim without an order just goes on. -/
theorem resume_of_none (hnone : s.waiting.lookup k = none) :
    s.resume k = (none, { s with locks := s.locks.resume k }) := by
  simp only [resume, hnone]

theorem waiting_of_lookup_none (hnone : s.waiting.lookup k = none) :
    s.waiting.filter (·.1 ≠ k) = s.waiting := by
  rw [List.filter_eq_self]
  intro w hw
  have hne := List.lookup_eq_none_iff.mp hnone w hw
  exact decide_eq_true fun heq => by simp [heq] at hne

/-- A claim whose time is up is lifted. -/
theorem expire_eq (h : s.Prompt) (hc : s.locks.claim? k = some c) (hwaits : c.stage.waits = true) :
    s.expire k =
      ((s.waiting.lookup k).map fun o => .error (LockTable.busy o.id s.patience), s.lift k) := by
  have hexpire := LockTable.expire_eq_lift h.locks hc hwaits
  unfold expire
  rw [hexpire]
  cases ho : s.waiting.lookup k with
  | some o => rfl
  | none =>
    simp only [lift, waiting_of_lookup_none ho]
    rfl

/-! ## At rest again -/

namespace Prompt

/-- A service that has just been started is at rest. -/
theorem start (hlocks : s.locks = .empty) (hwaiting : s.waiting = []) : s.Prompt := by
  refine ⟨?_, ?_⟩
  · rw [hlocks]
    exact LockTable.Prompt.empty
  · rw [hwaiting]
    exact nofun

theorem carry (h : s.Prompt) (o : Order) : (s.carry o).2.Prompt := ⟨h.locks, h.given⟩

theorem withLocks (h : s.Prompt) {locks : LockTable} (hlocks : locks.Prompt)
    (hle : s.locks.fresh ≤ locks.fresh) : ({ s with locks } : Service).Prompt :=
  ⟨hlocks, fun w hw => Nat.lt_of_lt_of_le (h.given w hw) hle⟩

/-- A claim is lifted that has not gone on yet. -/
theorem lift_suspended (h : s.Prompt) (hc : s.locks.claim? k = some c)
    (hsuspended : c.stage.isSuspended = true) : (s.lift k).Prompt := by
  refine ⟨h.locks.lift_suspended hc hsuspended, fun w hw => ?_⟩
  show w.1 < (s.locks.lift k).fresh
  rw [LockTable.lift_fresh]
  exact h.given w (List.mem_filter.mp hw).1

/-- Whoever is dropped takes his order with him. -/
theorem cancel (h : s.Prompt) (hc : s.locks.claim? k = some c)
    (hsuspended : c.stage.isSuspended = true) : (s.cancel k).Prompt := by
  refine ⟨h.locks.cancel hc hsuspended, fun w hw => ?_⟩
  show w.1 < (s.locks.cancel k).fresh
  rw [(h.locks.cancel_claims hc hsuspended).2]
  exact h.given w (List.mem_filter.mp hw).1

theorem start? (h : s.Prompt) (now : Nat) (task : Task) :
    (s.start? now task).2.Prompt ∧ s.locks.fresh ≤ (s.start? now task).2.locks.fresh := by
  cases task with
  | view caller id => exact ⟨⟨h.locks, h.given⟩, Nat.le_refl _⟩
  | order o =>
    show (s.submit now o).2.Prompt ∧ s.locks.fresh ≤ (s.submit now o).2.locks.fresh
    by_cases hwanted : ∃ c ∈ s.locks.claims, c.id = o.id
    · obtain ⟨c, hc, hid⟩ := hwanted
      have hfresh : (s.locks.acquire now o.id s.patience).2.fresh = s.locks.fresh + 2 := by
        rw [h.locks.acquire_of_wanted hc hid now s.patience]
      rw [submit_of_wanted h hc hid]
      refine ⟨⟨h.locks.acquire now o.id s.patience, ?_⟩, ?_⟩
      · intro w hw
        show w.1 < (s.locks.acquire now o.id s.patience).2.fresh
        rw [hfresh]
        rcases List.mem_append.mp hw with hold | hnew
        · exact Nat.lt_add_right 2 (h.given w hold)
        · rw [List.mem_singleton.mp hnew]
          exact Nat.lt_succ_self _
      · show s.locks.fresh ≤ (s.locks.acquire now o.id s.patience).2.fresh
        rw [hfresh]
        exact Nat.le_add_right _ _
    · rw [submit_of_unwanted h fun c hc hid => hwanted ⟨c, hc, hid⟩]
      have hlocks : ({ s.locks.evict o.id with fresh := s.locks.fresh + 2 } : LockTable).Prompt := by
        have hpassed := (h.locks.evict o.id).pass 2
        rwa [LockTable.evict_fresh] at hpassed
      exact ⟨(h.carry o).withLocks hlocks (Nat.le_add_right _ _), Nat.le_add_right _ _⟩

end Prompt

/-- A task that fails at once leaves nothing but the record of a denial and the numbers drawn for it. If
a mutex had been left behind, it may have been taken out. -/
theorem start?_failed (h : s.Prompt) {f : Failure} {s' : Service}
    (hstart : s.start? now task = (.ok (.error f), s')) :
    ∃ caller id locks n, s' = { s with
        ledger := s.ledger.recordAll (denial caller id f)
        locks } ∧
      ({ s.locks with fresh := s.locks.fresh + n } : LockTable).Retains locks := by
  cases task with
  | view caller id =>
    obtain ⟨houtcome, rfl⟩ := Prod.mk.inj hstart
    have hget : s.ledger.get s.policy caller id = (.error f, (s.ledger.get s.policy caller id).2) :=
      Prod.ext (Except.ok.inj houtcome) rfl
    refine ⟨caller, id, s.locks, 0, ?_, LockTable.Retains.refl _⟩
    rw [← Ledger.get_failed hget]
    rfl
  | order o =>
    have hsubmit : s.submit now o = (.ok (.error f), s') := hstart
    by_cases hwanted : ∃ c ∈ s.locks.claims, c.id = o.id
    · obtain ⟨c, hc, hid⟩ := hwanted
      rw [submit_of_wanted h hc hid] at hsubmit
      cases hsubmit
    · rw [submit_of_unwanted h fun c hc hid => hwanted ⟨c, hc, hid⟩] at hsubmit
      obtain ⟨houtcome, rfl⟩ := Prod.mk.inj hsubmit
      have hcarry : o.carryOut s.kind s.policy s.ledger =
          (.error f, (o.carryOut s.kind s.policy s.ledger).2) :=
        Prod.ext (Except.ok.inj houtcome) rfl
      refine ⟨o.caller, o.id, { s.locks.evict o.id with fresh := s.locks.fresh + 2 }, 2, ?_, ?_⟩
      · rw [← Order.carryOut_failed hcarry]
        rfl
      · obtain ⟨hclaims, hlookbacks, -, hentries⟩ := LockTable.retains_evict s.locks o.id
        exact ⟨hclaims, hlookbacks, rfl, hentries⟩

/-- A task that waits leaves an order under a new ticket, and without that everything would be as it
was, but for the numbers drawn for it. -/
theorem start?_waiting (h : s.Prompt) {s' : Service} (hstart : s.start? now task = (.error k, s')) :
    k = s.locks.fresh + 1 ∧ s'.ledger = s.ledger ∧ (∃ o, s'.waiting.lookup k = some o) ∧
      (∃ c, s'.locks.claim? k = some c ∧ c.stage.waits = true) ∧
      s'.lift k = { s with locks := { s.locks with fresh := s.locks.fresh + 2 } } := by
  cases task with
  | view caller id => cases hstart
  | order o =>
    have hsubmit : s.submit now o = (.error k, s') := hstart
    by_cases hwanted : ∃ c ∈ s.locks.claims, c.id = o.id
    · obtain ⟨c, hc, hid⟩ := hwanted
      obtain ⟨hclaim, hlift⟩ := h.locks.lift_acquire hc hid now s.patience
      rw [submit_of_wanted h hc hid] at hsubmit
      obtain ⟨hk, rfl⟩ := Prod.mk.inj hsubmit
      obtain rfl := Except.error.inj hk
      have hnone : s.waiting.lookup (s.locks.fresh + 1) = none := by
        rw [List.lookup_eq_none_iff]
        intro w hw
        have hlt := h.given w hw
        exact bne_iff_ne.mpr (by omega)
      refine ⟨rfl, rfl, ⟨o, ?_⟩, ⟨_, hclaim, rfl⟩, ?_⟩
      · rw [List.lookup_append, hnone]
        exact List.lookup_cons_self
      · have hwaiting : (s.waiting ++ [(s.locks.fresh + 1, o)]).filter (·.1 ≠ s.locks.fresh + 1) =
            s.waiting := by
          rw [List.filter_append, waiting_of_fresh h (Nat.le_succ _)]
          simp
        simp only [Service.lift, hlift, hwaiting]
    · rw [submit_of_unwanted h fun c hc hid => hwanted ⟨c, hc, hid⟩] at hsubmit
      cases hsubmit

/-! ## The past does not matter -/

theorem carry_since (s : Service) (o : Order) :
    (s.since past).carry o = ((s.carry o).1, (s.carry o).2.since past) := by
  simp only [carry, since, Order.carryOut_since]

theorem finish_since (s : Service) (k : Nat) (o : Order) :
    (s.since past).finish k o = ((s.finish k o).1, (s.finish k o).2.since past) := by
  rw [finish_eq, finish_eq, carry_since]
  rfl

theorem get_since (s : Service) (caller id : String) :
    (s.since past).get caller id = ((s.get caller id).1, (s.get caller id).2.since past) := by
  simp only [get, since, Ledger.get_since]

theorem submit_since (s : Service) (now : Nat) (o : Order) :
    (s.since past).submit now o = ((s.submit now o).1, (s.submit now o).2.since past) := by
  show (let (k, locks) := s.locks.acquire now o.id s.patience
    if locks.holds k then
      (Except.ok ((s.since past).carry o).1, (({ s with locks }.since past).finish k o).2)
    else (Except.error k, { s with locks, waiting := s.waiting ++ [(k, o)] }.since past)) = _
  rw [submit_eq]
  obtain ⟨k, locks⟩ := s.locks.acquire now o.id s.patience
  simp only [carry_since, finish_since]
  split <;> rfl

theorem start?_since (s : Service) (now : Nat) (task : Task) :
    (s.since past).start? now task = ((s.start? now task).1, (s.start? now task).2.since past) := by
  cases task with
  | view caller id => simp only [start?, get_since]
  | order o => exact submit_since s now o

theorem resume_since (s : Service) (k : Nat) :
    (s.since past).resume k = ((s.resume k).1, (s.resume k).2.since past) := by
  have hlookup : (s.since past).waiting.lookup k = s.waiting.lookup k := rfl
  have hlocks : (s.since past).locks = s.locks := rfl
  have hgoes : { s.since past with locks := (s.since past).locks.resume k } =
      since past { s with locks := s.locks.resume k } := rfl
  unfold resume
  simp only [hlookup, hgoes]
  cases s.waiting.lookup k with
  | none => rfl
  | some o =>
    simp only [finish_since, hlocks]
    cases (s.locks.resume k).holds k <;> rfl

theorem expire_since (s : Service) (k : Nat) :
    (s.since past).expire k = ((s.expire k).1, (s.expire k).2.since past) := by
  have hwaiting : (s.since past).waiting = s.waiting := rfl
  unfold expire
  rw [hwaiting]
  cases s.waiting.lookup k <;> rfl

/-! ## A claim that waits does not matter -/

section Lift

variable (h : s.Prompt) (hc : s.locks.claim? a = some c) (hwaits : c.stage.waits = true)
include h hc hwaits

theorem Prompt.lift : (s.lift a).Prompt := h.lift_suspended hc (Stage.isSuspended_of_waits hwaits)

theorem submit_lift (now : Nat) (o : Order) :
    (s.lift a).submit now o = ((s.submit now o).1, (s.submit now o).2.lift a) := by
  have hlift := h.lift hc hwaits
  have hlocks : s.locks.lift a = s.locks.without a := LockTable.lift_of_waits hc hwaits
  have hfresh : (s.lift a).locks.fresh = s.locks.fresh := LockTable.lift_fresh
  have hclaims : (s.lift a).locks.claims = (s.locks.without a).claims := by
    show (s.locks.lift a).claims = _
    rw [hlocks]
  by_cases hwanted : ∃ d ∈ s.locks.claims, d.id = o.id
  · obtain ⟨d, hd, hid⟩ := hwanted
    obtain ⟨e, he, heid, -⟩ := h.locks.exists_claim_without hc hwaits hd
    have hlt : a < s.locks.fresh := by
      obtain ⟨hcmem, hca⟩ := LockTable.mem_of_claim? hc
      exact hca ▸ h.locks.sound.given c hcmem
    have hwaiting : (s.waiting ++ [(s.locks.fresh + 1, o)]).filter (·.1 ≠ a) =
        s.waiting.filter (·.1 ≠ a) ++ [(s.locks.fresh + 1, o)] := by
      have hkeep : [(s.locks.fresh + 1, o)].filter (·.1 ≠ a) = [(s.locks.fresh + 1, o)] := by
        simp [show s.locks.fresh + 1 ≠ a by omega]
      rw [List.filter_append, hkeep]
    rw [submit_of_wanted h hd hid, submit_of_wanted hlift (hclaims ▸ he) (heid.trans hid), hfresh]
    refine Prod.ext rfl ?_
    simp only [Service.lift, hwaiting]
    rw [h.locks.acquire_lift hc hwaits]
  · have hnone : ∀ d ∈ s.locks.claims, d.id ≠ o.id := fun d hd hid => hwanted ⟨d, hd, hid⟩
    have hnone' : ∀ d ∈ (s.locks.without a).claims, d.id ≠ o.id := fun d hd =>
      hnone d (LockTable.mem_without.mp hd).1
    have hsound := (h.locks.without hc hwaits).sound
    have hpassed : ({ s.locks.evict o.id with fresh := s.locks.fresh + 2 } : LockTable).lift a =
        { (s.locks.without a).evict o.id with fresh := s.locks.fresh + 2 } := by
      rw [LockTable.evict_of_unwanted h.locks.sound hnone, LockTable.evict_of_unwanted hsound hnone']
      exact LockTable.lift_of_waits hc hwaits
    rw [submit_of_unwanted h hnone, submit_of_unwanted hlift (hclaims ▸ hnone')]
    refine Prod.ext rfl ?_
    simp only [hlocks, Service.lift, hpassed]
    rfl

theorem start?_lift (now : Nat) (task : Task) :
    (s.lift a).start? now task = ((s.start? now task).1, (s.start? now task).2.lift a) := by
  cases task with
  | view caller id => rfl
  | order o => exact submit_lift h hc hwaits now o

theorem lift_comm {d : Claim} (hd : s.locks.claim? k = some d) (hne : a ≠ k) :
    (s.lift k).lift a = (s.lift a).lift k := by
  simp only [Service.lift, LockTable.lift_comm h.locks hc hwaits hd hne, List.filter_filter, Bool.and_comm]

omit h in
theorem claim?_lift (hne : k ≠ a) : (s.lift a).locks.claim? k = s.locks.claim? k := by
  show (s.locks.lift a).claim? k = _
  rw [LockTable.lift_of_waits hc hwaits]
  exact LockTable.claim?_without_ne hne

theorem resume_lift {d : Claim} (hd : s.locks.claim? k = some d) (hhanded : d.stage = .handed)
    (hne : k ≠ a) : (s.lift a).resume k = ((s.resume k).1, (s.resume k).2.lift a) := by
  have hlift := h.lift hc hwaits
  have hd' := (claim?_lift hc hwaits hne).trans hd
  have hlookup : (s.lift a).waiting.lookup k = s.waiting.lookup k := lookup_filter_ne hne
  cases ho : s.waiting.lookup k with
  | some o =>
    rw [resume_of_order h hd hhanded ho, resume_of_order hlift hd' hhanded (hlookup.trans ho)]
    exact Prod.ext rfl (lift_comm (s := (s.carry o).2) (h.carry o) hc hwaits hd hne.symm).symm
  | none =>
    rw [resume_of_none ho, resume_of_none (hlookup.trans ho)]
    refine Prod.ext rfl ?_
    have hresume := (LockTable.resume_of_handed hd hhanded).1
    have hresume' := (LockTable.resume_of_handed hd' hhanded).1
    have hstays : (s.locks.resume k).claim? a = some c := by
      rw [hresume, LockTable.claim?_setStage, hc, Option.map_some, Claim.moved_of_ne]
      rw [(LockTable.mem_of_claim? hc).2]
      exact hne.symm
    simp only [Service.lift] at hresume' ⊢
    rw [hresume', LockTable.lift_of_waits hstays hwaits, LockTable.lift_of_waits hc hwaits, hresume,
      LockTable.setStage_without]

theorem expire_lift {d : Claim} (hd : s.locks.claim? k = some d) (hdwaits : d.stage.waits = true)
    (hne : k ≠ a) : (s.lift a).expire k = ((s.expire k).1, (s.expire k).2.lift a) := by
  have hd' := (claim?_lift hc hwaits hne).trans hd
  have hlookup : (s.lift a).waiting.lookup k = s.waiting.lookup k := lookup_filter_ne hne
  rw [expire_eq h hd hdwaits, expire_eq (h.lift hc hwaits) hd' hdwaits, hlookup]
  exact Prod.ext rfl (lift_comm h hc hwaits hd hne.symm).symm

theorem acquire_lift (now : Nat) (id : String) (patience : Duration) :
    { s.lift a with locks := ((s.lift a).locks.acquire now id patience).2 } =
      Service.lift a { s with locks := (s.locks.acquire now id patience).2 } := by
  have hacquire : ((s.lift a).locks.acquire now id patience).2 =
      (s.locks.acquire now id patience).2.lift a :=
    congrArg Prod.snd (h.locks.acquire_lift hc hwaits now id patience)
  rw [hacquire]
  rfl

theorem release_lift {d : Claim} (hd : s.locks.claim? k = some d) (hheld : d.stage = .held)
    (hne : k ≠ a) :
    { s.lift a with locks := (s.lift a).locks.release k } =
      Service.lift a { s with locks := s.locks.release k } := by
  have hd' := (claim?_lift hc hwaits hne).trans hd
  have hlift := (h.lift hc hwaits).locks
  have hrelease : (s.lift a).locks.release k = (s.locks.release k).lift a := by
    rw [LockTable.release_eq_lift h.locks.sound h.locks.attended hd hheld,
      LockTable.release_eq_lift hlift.sound hlift.attended hd' hheld]
    exact (LockTable.lift_comm h.locks hc hwaits hd hne.symm).symm
  rw [hrelease]
  rfl

end Lift

/-! ## What becomes of a ticket while others act -/

/-- What is left of a ticket when something befalls others: its order waits if it waited, and its claim
stands where it stood, unless it has been handed the mutex. -/
structure Stays (a : Nat) (s s' : Service) : Prop where
  le : s.locks.fresh ≤ s'.locks.fresh
  order : ∀ o, s.waiting.lookup a = some o → s'.waiting.lookup a = some o
  claim : s'.locks.claim? a = s.locks.claim? a ∨
    ∃ w, s'.locks.claim? a = (s.locks.claim? a).map (Claim.moved w .handed)

/-- That an order waits under a ticket, or has been handed its lock. -/
structure Awaits (s : Service) (a : Nat) : Prop where
  order : ∃ o, s.waiting.lookup a = some o
  claim : ∃ c, s.locks.claim? a = some c ∧ c.stage.isSuspended = true

/-- That a ticket was given out and no claim has it any more. -/
structure Spent (s : Service) (a : Nat) : Prop where
  lt : a < s.locks.fresh
  gone : s.locks.claim? a = none

theorem Awaits.lt (hw : s.Awaits a) (h : s.Prompt) : a < s.locks.fresh := by
  obtain ⟨c, hc, -⟩ := hw.claim
  obtain ⟨hcmem, hca⟩ := LockTable.mem_of_claim? hc
  exact hca ▸ h.locks.sound.given c hcmem

namespace Stays

variable {s' : Service}

theorem awaits (h : Stays a s s') (hw : s.Awaits a) : s'.Awaits a := by
  obtain ⟨⟨o, ho⟩, c, hc, hstage⟩ := hw
  refine ⟨⟨o, h.order o ho⟩, ?_⟩
  rcases h.claim with heq | ⟨w, heq⟩ <;> rw [heq, hc]
  · exact ⟨c, rfl, hstage⟩
  · refine ⟨c.moved w .handed, rfl, ?_⟩
    unfold Claim.moved
    split
    · rfl
    · exact hstage

theorem spent (h : Stays a s s') (hs : s.Spent a) : s'.Spent a := by
  refine ⟨Nat.lt_of_lt_of_le hs.lt h.le, ?_⟩
  rcases h.claim with heq | ⟨w, heq⟩ <;> rw [heq, hs.gone]
  rfl

/-- Another claim is lifted. -/
theorem lift {d : Claim} (hd : s.locks.claim? k = some d) (hne : a ≠ k) : Stays a s (s.lift k) := by
  refine ⟨Nat.le_of_eq LockTable.lift_fresh.symm, ?_, ?_⟩
  · intro o ho
    exact (lookup_filter_ne hne).trans ho
  · have hclaim := LockTable.claim?_lift hd a
    rw [LockTable.claim?_without_ne hne] at hclaim
    exact hclaim

/-- Another claim that has been handed its mutex holds it. -/
theorem hold {d : Claim} (hd : s.locks.claim? k = some d) (hhanded : d.stage = .handed)
    (hne : a ≠ k) : Stays a s { s with locks := s.locks.resume k } := by
  have hresume := (LockTable.resume_of_handed hd hhanded).1
  refine ⟨Nat.le_of_eq (by rw [hresume]; rfl), fun _ ho => ho, Or.inl ?_⟩
  show (s.locks.resume k).claim? a = s.locks.claim? a
  rw [hresume, LockTable.claim?_setStage]
  cases hc : s.locks.claim? a with
  | none => rfl
  | some c =>
    have hca := (LockTable.mem_of_claim? hc).2
    rw [Option.map_some, Claim.moved_of_ne (hca ▸ hne)]

/-- Another claim goes on. -/
theorem resume (h : s.Prompt) {d : Claim} (hd : s.locks.claim? k = some d)
    (hhanded : d.stage = .handed) (hne : a ≠ k) : Stays a s (s.resume k).2 := by
  cases ho : s.waiting.lookup k with
  | some o =>
    obtain ⟨hle, horder, hclaim⟩ := lift (s := (s.carry o).2) hd hne
    rw [resume_of_order h hd hhanded ho]
    exact ⟨hle, horder, hclaim⟩
  | none =>
    rw [resume_of_none ho]
    exact hold hd hhanded hne

theorem expire (h : s.Prompt) {d : Claim} (hd : s.locks.claim? k = some d)
    (hwaits : d.stage.waits = true) (hne : a ≠ k) : Stays a s (s.expire k).2 := by
  rw [expire_eq h hd hwaits]
  exact lift hd hne

/-- Another claim is dropped. -/
theorem cancel (h : s.Prompt) {d : Claim} (hd : s.locks.claim? k = some d)
    (hsuspended : d.stage.isSuspended = true) (hne : a ≠ k) : Stays a s (s.cancel k) := by
  obtain ⟨hclaims, hfresh⟩ := h.locks.cancel_claims hd hsuspended
  obtain ⟨-, horder, hclaim⟩ := lift (s := s) hd hne
  refine ⟨Nat.le_of_eq hfresh.symm, horder, ?_⟩
  have hsame : (s.cancel k).locks.claim? a = (s.lift k).locks.claim? a := by
    show (s.locks.cancel k).claims.find? _ = (s.locks.lift k).claims.find? _
    rw [hclaims]
  rw [hsame]
  exact hclaim

/-- Another lock that is held is let go of. -/
theorem release (h : s.Prompt) {d : Claim} (hd : s.locks.claim? k = some d) (hheld : d.stage = .held)
    (hne : a ≠ k) : Stays a s { s with locks := s.locks.release k } := by
  obtain ⟨hle, -, hclaim⟩ := lift (s := s) hd hne
  rw [LockTable.release_eq_lift h.locks.sound h.locks.attended hd hheld]
  exact ⟨hle, fun _ ho => ho, hclaim⟩

/-- A lock is acquired. -/
theorem acquire (h : s.Prompt) (hlt : a < s.locks.fresh) (id : String) (patience : Duration) :
    Stays a s { s with locks := (s.locks.acquire now id patience).2 } :=
  ⟨LockTable.fresh_le_acquire s.locks now id patience, fun _ ho => ho,
    Or.inl (LockTable.claim?_acquire_of_lt h.locks.sound hlt now id patience)⟩

/-- A task is taken. -/
theorem start? (h : s.Prompt) (hlt : a < s.locks.fresh) (now : Nat) (task : Task) :
    Stays a s (s.start? now task).2 := by
  have hle := (h.start? now task).2
  cases task with
  | view caller id => exact ⟨hle, fun _ ho => ho, Or.inl rfl⟩
  | order o =>
    change Stays a s (s.submit now o).2
    change s.locks.fresh ≤ (s.submit now o).2.locks.fresh at hle
    by_cases hwanted : ∃ c ∈ s.locks.claims, c.id = o.id
    · obtain ⟨c, hc, hid⟩ := hwanted
      rw [submit_of_wanted h hc hid] at hle ⊢
      refine ⟨hle, ?_, (acquire h hlt o.id s.patience).claim⟩
      intro o' ho'
      rw [List.lookup_append, ho']
      rfl
    · rw [submit_of_unwanted h fun c hc hid => hwanted ⟨c, hc, hid⟩] at hle ⊢
      refine ⟨hle, fun _ ho => ho, Or.inl ?_⟩
      show (s.locks.evict o.id).claims.find? _ = _
      rw [LockTable.evict_claims]
      rfl

end Stays

end InletRegistry.Registry.Service
