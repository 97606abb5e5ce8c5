import InletRegistry.Proofs.Registry.Prompt

/-!
# Services that differ in what was left behind

A service **retains** another if it is the same but for its locks, and these retain the locks of the other.
Whatever happens to both, they answer alike and go on to differ in no more than that. And where nothing
was left behind, nothing is as long as nobody is dropped.
-/

namespace InletRegistry.Registry.Service

open InletRegistry.Locks InletRegistry.Time

variable {s v w : Service} {o : Order} {now k a : Nat} {c d : Claim}

/-- That two services differ in their locks alone, and in these only by what was left behind. -/
def Retains (v s : Service) : Prop := ∃ locks, v = { s with locks } ∧ locks.Retains s.locks

namespace Retains

theorem refl (s : Service) : s.Retains s := ⟨s.locks, rfl, LockTable.Retains.refl _⟩

theorem trans (h : w.Retains v) (g : v.Retains s) : w.Retains s := by
  obtain ⟨locks, rfl, hlocks⟩ := h
  obtain ⟨locks', rfl, hlocks'⟩ := g
  exact ⟨locks, rfl, hlocks.trans hlocks'⟩

theorem locks (h : v.Retains s) : v.locks.Retains s.locks := by
  obtain ⟨locks, rfl, hlocks⟩ := h
  exact hlocks

theorem ledger (h : v.Retains s) : v.ledger = s.ledger := by
  obtain ⟨locks, rfl, -⟩ := h
  rfl

theorem waiting (h : v.Retains s) : v.waiting = s.waiting := by
  obtain ⟨locks, rfl, -⟩ := h
  rfl

theorem carry (h : v.Retains s) (o : Order) :
    (v.carry o).1 = (s.carry o).1 ∧ (v.carry o).2.Retains (s.carry o).2 := by
  obtain ⟨locks, rfl, hlocks⟩ := h
  exact ⟨rfl, locks, rfl, hlocks⟩

theorem withLocks (h : v.Retains s) {l m : LockTable} (hlocks : l.Retains m) :
    ({ v with locks := l } : Service).Retains { s with locks := m } := by
  obtain ⟨locks, rfl, -⟩ := h
  exact ⟨l, rfl, hlocks⟩

theorem onLedger (h : v.Retains s) (f : Ledger → Ledger) :
    ({ v with ledger := f v.ledger } : Service).Retains { s with ledger := f s.ledger } := by
  obtain ⟨locks, rfl, hlocks⟩ := h
  exact ⟨locks, rfl, hlocks⟩

theorem passOver (h : v.Retains s) (identifiers tickets : Nat) :
    (v.passOver identifiers tickets).Retains (s.passOver identifiers tickets) := by
  obtain ⟨locks, rfl, hlocks⟩ := h
  exact ⟨_, rfl, hlocks.pass tickets⟩

variable (h : v.Retains s) (hv : v.Prompt) (hs : s.Prompt)
include h hv hs

theorem lift (k : Nat) : (v.lift k).Retains (s.lift k) := by
  obtain ⟨locks, rfl, hlocks⟩ := h
  exact ⟨locks.lift k, rfl, hlocks.lift hv.locks hs.locks k⟩

theorem cancel (hc : s.locks.claim? k = some c) (hsuspended : c.stage.isSuspended = true) :
    (v.cancel k).Retains (s.cancel k) := by
  obtain ⟨locks, rfl, hlocks⟩ := h
  exact ⟨locks.cancel k, rfl, hlocks.cancel hv.locks hs.locks hc hsuspended⟩

theorem submit (now : Nat) (o : Order) :
    (v.submit now o).1 = (s.submit now o).1 ∧ (v.submit now o).2.Retains (s.submit now o).2 := by
  have hlocks := h.locks
  by_cases hwanted : ∃ c ∈ s.locks.claims, c.id = o.id
  · obtain ⟨c, hc, hid⟩ := hwanted
    obtain ⟨d, hd, hblank⟩ := hlocks.mem hc
    rw [submit_of_wanted hs hc hid, submit_of_wanted hv hd ((Claim.id_eq_of_blank hblank).trans hid),
      hlocks.fresh]
    obtain ⟨locks, rfl, -⟩ := h
    exact ⟨rfl, _, rfl, hlocks.acquire hv.locks hs.locks now o.id s.patience⟩
  · have hnone : ∀ c ∈ s.locks.claims, c.id ≠ o.id := fun c hc hid => hwanted ⟨c, hc, hid⟩
    rw [submit_of_unwanted hs hnone, submit_of_unwanted hv (hlocks.unwanted hnone)]
    refine ⟨congrArg Except.ok (h.carry o).1, (h.carry o).2.withLocks ?_⟩
    obtain ⟨hclaims, hlookbacks, -, hentries⟩ :=
      hlocks.evict hv.locks.sound hs.locks.sound o.id
    exact ⟨hclaims, hlookbacks, congrArg (· + 2) hlocks.fresh, hentries⟩

theorem start? (now : Nat) (task : Task) : (v.start? now task).1 = (s.start? now task).1 ∧
    (v.start? now task).2.Retains (s.start? now task).2 := by
  cases task with
  | view caller id =>
    obtain ⟨locks, rfl, hlocks⟩ := h
    exact ⟨rfl, locks, rfl, hlocks⟩
  | order o => exact h.submit hv hs now o

theorem resume (hc : s.locks.claim? k = some c) (hhanded : c.stage = .handed) :
    (v.resume k).1 = (s.resume k).1 ∧ (v.resume k).2.Retains (s.resume k).2 := by
  obtain ⟨d, hd, hblank⟩ := h.locks.claim? hc
  have hhanded' : d.stage = .handed := (Claim.stage_eq_of_blank hblank).trans hhanded
  have hwaiting := h.waiting
  cases ho : s.waiting.lookup k with
  | some o =>
    rw [resume_of_order hs hc hhanded ho, resume_of_order hv hd hhanded' (hwaiting ▸ ho)]
    obtain ⟨houtcome, hcarry⟩ := h.carry o
    exact ⟨congrArg some houtcome, hcarry.lift (hv.carry o) (hs.carry o) k⟩
  | none =>
    rw [resume_of_none ho, resume_of_none (hwaiting ▸ ho)]
    refine ⟨rfl, h.withLocks ?_⟩
    rw [(LockTable.resume_of_handed hc hhanded).1, (LockTable.resume_of_handed hd hhanded').1]
    exact h.locks.setStage k .held

theorem expire (hc : s.locks.claim? k = some c) (hwaits : c.stage.waits = true) :
    (v.expire k).1 = (s.expire k).1 ∧ (v.expire k).2.Retains (s.expire k).2 := by
  obtain ⟨d, hd, hblank⟩ := h.locks.claim? hc
  have hwaits' : d.stage.waits = true := (Claim.stage_eq_of_blank hblank) ▸ hwaits
  rw [expire_eq hs hc hwaits, expire_eq hv hd hwaits']
  refine ⟨?_, h.lift hv hs k⟩
  obtain ⟨locks, rfl, -⟩ := h
  rfl

theorem acquire (now : Nat) (id : String) (patience : Duration) :
    ({ v with locks := (v.locks.acquire now id patience).2 } : Service).Retains
      { s with locks := (s.locks.acquire now id patience).2 } :=
  h.withLocks (h.locks.acquire hv.locks hs.locks now id patience)

theorem release (hc : s.locks.claim? k = some c) (hheld : c.stage = .held) :
    ({ v with locks := v.locks.release k } : Service).Retains
      { s with locks := s.locks.release k } := by
  obtain ⟨d, hd, hblank⟩ := h.locks.claim? hc
  have hheld' : d.stage = .held := (Claim.stage_eq_of_blank hblank).trans hheld
  refine h.withLocks ?_
  rw [LockTable.release_eq_lift hs.locks.sound hs.locks.attended hc hheld,
    LockTable.release_eq_lift hv.locks.sound hv.locks.attended hd hheld']
  exact h.locks.lift hv.locks hs.locks k

end Retains

/-- One claim is lifted and another is dropped: the order in which that happens does not matter but to
what is left behind. -/
theorem cancel_lift (h : s.Prompt) (ha : s.locks.claim? a = some c)
    (hasuspended : c.stage.isSuspended = true) (hk : s.locks.claim? k = some d)
    (hksuspended : d.stage.isSuspended = true) (hne : a ≠ k) :
    ((s.lift a).cancel k).Retains ((s.cancel k).lift a) := by
  refine ⟨_, ?_, LockTable.cancel_lift h.locks ha hasuspended hk hksuspended hne⟩
  simp only [Service.cancel, Service.lift, List.filter_filter, Bool.and_comm]

/-! ## Where nothing was left behind -/

section Tidy

variable (h : s.locks.Tidy) (hs : s.Prompt)
include h hs

theorem tidy_start? (now : Nat) (task : Task) : (s.start? now task).2.locks.Tidy := by
  cases task with
  | view caller id => exact h
  | order o =>
    show (s.submit now o).2.locks.Tidy
    by_cases hwanted : ∃ c ∈ s.locks.claims, c.id = o.id
    · obtain ⟨c, hc, hid⟩ := hwanted
      rw [submit_of_wanted hs hc hid]
      exact h.acquire hs.locks now o.id s.patience
    · rw [submit_of_unwanted hs fun c hc hid => hwanted ⟨c, hc, hid⟩]
      exact h.evict o.id

theorem tidy_resume (hc : s.locks.claim? k = some c) (hhanded : c.stage = .handed) :
    (s.resume k).2.locks.Tidy := by
  cases ho : s.waiting.lookup k with
  | some o =>
    rw [resume_of_order hs hc hhanded ho]
    exact h.lift hs.locks k
  | none =>
    rw [resume_of_none ho]
    show (s.locks.resume k).Tidy
    rw [(LockTable.resume_of_handed hc hhanded).1]
    exact h.setStage k .held

theorem tidy_expire (hc : s.locks.claim? k = some c) (hwaits : c.stage.waits = true) :
    (s.expire k).2.locks.Tidy := by
  rw [expire_eq hs hc hwaits]
  exact h.lift hs.locks k

theorem tidy_release (hc : s.locks.claim? k = some c) (hheld : c.stage = .held) :
    (s.locks.release k).Tidy := by
  rw [LockTable.release_eq_lift hs.locks.sound hs.locks.attended hc hheld]
  exact h.lift hs.locks k

end Tidy

end InletRegistry.Registry.Service
