import InletRegistry.Proofs.Locks.Prompt

/-!
# The line for a lock

The claims of a table stand in the order in which they arrived, and a release hands a mutex to the
first of those that wait for it. So where every claim that acts acts at once, whoever has the lock of a
resource came before everybody who waits for it: `Queue` says so, and every way to change such a table
keeps it.

`unheld` are the tickets that have come to nothing yet: the claims that wait, and those that have been
handed a mutex and have not run. They become fewer with every claim that runs.
-/

namespace InletRegistry.LockTable

open InletRegistry.Locks InletRegistry.Lookup InletRegistry.Time

variable {t u : LockTable} {j k now : Nat} {id : String} {patience : Duration} {c d w : Claim}
  {stage : Stage}

/-- What holds of a table in which nobody is passed over. -/
structure Queue (t : LockTable) : Prop where
  prompt : t.Prompt
  /-- The claims stand in the order of their tickets. -/
  ascending : t.claims.Pairwise fun c d => c.ticket < d.ticket
  /-- Whoever has a lock for its own came before all others that want it. -/
  first : ∀ c ∈ t.claims, ∀ d ∈ t.claims, c.id = d.id → c.stage.owns = true → c.ticket ≤ d.ticket

/-- The tickets of the claims that do not hold a mutex. -/
def unheld (t : LockTable) : List Nat := (t.claims.filter (·.stage ≠ .held)).map (·.ticket)

theorem mem_unheld : k ∈ t.unheld ↔ ∃ c ∈ t.claims, c.ticket = k ∧ c.stage ≠ .held := by
  simp only [unheld, List.mem_map, List.mem_filter, decide_eq_true_eq]
  constructor
  · rintro ⟨c, ⟨hc, hstage⟩, rfl⟩
    exact ⟨c, hc, rfl, hstage⟩
  · rintro ⟨c, hc, rfl, hstage⟩
    exact ⟨c, ⟨hc, hstage⟩, rfl⟩

theorem length_unheld_le (t : LockTable) : t.unheld.length ≤ t.claims.length := by
  rw [unheld, List.length_map]
  exact List.length_filter_le _ _

theorem unheld_without (t : LockTable) (k : Nat) : (t.without k).unheld = t.unheld.filter (· ≠ k) := by
  simp only [unheld, without, List.filter_map, List.filter_filter, Function.comp_def, Bool.and_comm]

/-- A claim that holds its mutex is not among those that do not. -/
theorem Sound.not_mem_unheld (hs : t.Sound) (hc : t.claim? k = some c) (hheld : c.stage = .held) :
    k ∉ t.unheld := by
  intro hk
  obtain ⟨hcmem, hck⟩ := mem_of_claim? hc
  obtain ⟨d, hd, hdk, hstage⟩ := mem_unheld.mp hk
  obtain rfl := hs.eq_of_ticket hd hcmem (hdk.trans hck.symm)
  exact hstage hheld

/-- A claim that comes to hold its mutex is counted no more. -/
theorem unheld_setStage_held (t : LockTable) (k : Nat) :
    (t.setStage k .held).unheld = t.unheld.filter (· ≠ k) := by
  simp only [unheld, setStage, List.filter_map, List.filter_filter, Function.comp_def, List.map_map,
    Claim.moved_ticket]
  congr 1
  refine List.filter_congr fun c _ => ?_
  by_cases hck : c.ticket = k
  · simp [Claim.moved_of_ticket hck, hck]
  · simp [Claim.moved_of_ne hck, hck]

/-- A claim that is handed a mutex is counted as before. -/
theorem unheld_hand (h : ∀ c ∈ t.claims, c.ticket = k → c.stage ≠ .held) :
    (t.hand k).unheld = t.unheld := by
  simp only [unheld, hand, setStage, List.filter_map, Function.comp_def, List.map_map,
    Claim.moved_ticket]
  congr 1
  refine List.filter_congr fun c hc => ?_
  by_cases hck : c.ticket = k
  · simp [Claim.moved_of_ticket hck, h c hc hck]
  · simp [Claim.moved_of_ne hck]

theorem waits_ne_held (h : stage.waits = true) : stage ≠ .held := by
  rintro rfl
  cases h

/-! ## The next in line -/

/-- The next in line came before all others that wait. -/
theorem nextInLine?_le {m : Nat} (h : t.claims.Pairwise fun c d => c.ticket < d.ticket)
    (hw : t.nextInLine? m = some w) (hd : d ∈ t.claims) (hm : d.mutex = m)
    (hwaits : d.stage.waits = true) : w.ticket ≤ d.ticket := by
  obtain ⟨-, before, behind, heq, hnone⟩ := List.find?_eq_some_iff_append.mp hw
  rw [heq] at h hd
  rcases List.mem_append.mp hd with hbefore | hrest
  · have := hnone d hbefore
    rw [waitsFor_iff.mpr ⟨hm, hwaits⟩] at this
    cases this
  · rcases List.mem_cons.mp hrest with rfl | hbehind
    · exact Nat.le_refl _
    · obtain ⟨-, hcons, -⟩ := List.pairwise_append.mp h
      exact Nat.le_of_lt ((List.pairwise_cons.mp hcons).1 d hbehind)

/-! ## What becomes of the claims when an owner goes -/

/-- Whatever is left when an owner goes was there before, and was moved only if it is next in line. -/
theorem Prompt.mem_lift (h : t.Prompt) (hc : t.claim? k = some c) (howns : c.stage.owns = true)
    (hd : d ∈ (t.lift k).claims) : ∃ e ∈ t.claims, e.ticket ≠ k ∧
      (d = e ∨ e.stage.waits = true ∧ d = { e with stage := .handed }) := by
  cases hnext : (t.without k).nextInLine? c.mutex with
  | none =>
    rw [h.lift_of_none hc howns hnext] at hd
    obtain ⟨hold, hne⟩ := mem_without.mp hd
    exact ⟨d, hold, hne, Or.inl rfl⟩
  | some w =>
    obtain ⟨hw, -, hwaits⟩ := mem_of_nextInLine? hnext
    rw [h.lift_of_some hc howns hnext] at hd
    obtain ⟨e, he, rfl⟩ := mem_setStage.mp hd
    obtain ⟨hold, hne⟩ := mem_without.mp he
    refine ⟨e, hold, hne, ?_⟩
    by_cases hew : e.ticket = w.ticket
    · obtain rfl := h.sound.eq_of_ticket hold (mem_without.mp hw).1 hew
      exact Or.inr ⟨hwaits, Claim.moved_of_ticket rfl⟩
    · exact Or.inl (Claim.moved_of_ne hew)

/-- Whoever holds another mutex goes on holding it when an owner goes. -/
theorem Prompt.mem_lift_of_held (h : t.Prompt) (hc : t.claim? k = some c)
    (howns : c.stage.owns = true) (hd : d ∈ t.claims) (hne : d.ticket ≠ k)
    (hheld : d.stage = .held) : d ∈ (t.lift k).claims := by
  have hkept : d ∈ (t.without k).claims := mem_without.mpr ⟨hd, hne⟩
  cases hnext : (t.without k).nextInLine? c.mutex with
  | none =>
    rw [h.lift_of_none hc howns hnext]
    exact hkept
  | some w =>
    obtain ⟨hw, -, hwaits⟩ := mem_of_nextInLine? hnext
    rw [h.lift_of_some hc howns hnext]
    refine mem_setStage.mpr ⟨d, hkept, (Claim.moved_of_ne fun hdw => ?_).symm⟩
    obtain rfl := h.sound.eq_of_ticket hd (mem_without.mp hw).1 hdw
    exact waits_ne_held hwaits hheld

/-- A holder that goes leaves those that do not hold a mutex as many as they were. -/
theorem Prompt.unheld_lift (h : t.Prompt) (hc : t.claim? k = some c) (hheld : c.stage = .held) :
    (t.lift k).unheld = t.unheld := by
  have howns : c.stage.owns = true := by rw [hheld]; rfl
  have hgone : (t.without k).unheld = t.unheld := by
    rw [unheld_without, List.filter_eq_self]
    intro j hj
    refine decide_eq_true fun hjk => h.sound.not_mem_unheld hc hheld ?_
    rw [← hjk]
    exact hj
  cases hnext : (t.without k).nextInLine? c.mutex with
  | none =>
    rw [h.lift_of_none hc howns hnext]
    exact hgone
  | some w =>
    obtain ⟨hw, -, hwaits⟩ := mem_of_nextInLine? hnext
    rw [h.lift_of_some hc howns hnext, unheld_hand, hgone]
    intro d hd hdw
    obtain rfl := h.sound.eq_of_ticket (mem_without.mp hd).1 (mem_without.mp hw).1 hdw
    exact waits_ne_held hwaits

namespace Queue

theorem empty : LockTable.empty.Queue := ⟨Prompt.empty, List.Pairwise.nil, nofun⟩

theorem without (h : t.Queue) (hc : t.claim? k = some c) (hwaits : c.stage.waits = true) :
    (t.without k).Queue :=
  ⟨h.prompt.without hc hwaits, h.ascending.filter _,
    fun d hd e he => h.first d (mem_without.mp hd).1 e (mem_without.mp he).1⟩

/-- When an owner goes, its lock goes to whoever came first of those that are left. -/
theorem lift (h : t.Queue) (hc : t.claim? k = some c) (howns : c.stage.owns = true)
    (hone : ∀ d ∈ t.claims, d.stage = .handed → d.ticket = k) : (t.lift k).Queue := by
  have hprompt := h.prompt.lift_owner hc howns hone
  have hascending : (t.without k).claims.Pairwise fun c d => c.ticket < d.ticket :=
    h.ascending.filter _
  cases hnext : (t.without k).nextInLine? c.mutex with
  | none =>
    rw [h.prompt.lift_of_none hc howns hnext] at hprompt ⊢
    exact ⟨hprompt, hascending,
      fun d hd e he => h.first d (mem_without.mp hd).1 e (mem_without.mp he).1⟩
  | some w =>
    obtain ⟨hw, hm, -⟩ := mem_of_nextInLine? hnext
    rw [h.prompt.lift_of_some hc howns hnext] at hprompt ⊢
    refine ⟨hprompt, ?_, ?_⟩
    · refine List.pairwise_map.mpr (hascending.imp ?_)
      intro d e hlt
      rw [Claim.moved_ticket, Claim.moved_ticket]
      exact hlt
    · intro d' hd' e' he' hid howns'
      obtain ⟨d, hd, rfl⟩ := mem_setStage.mp hd'
      obtain ⟨e, he, rfl⟩ := mem_setStage.mp he'
      rw [Claim.moved_ticket, Claim.moved_ticket]
      rw [Claim.moved_id, Claim.moved_id] at hid
      by_cases hdw : d.ticket = w.ticket
      · obtain rfl := h.prompt.sound.eq_of_ticket (mem_without.mp hd).1 (mem_without.mp hw).1 hdw
        have hsame : e.mutex = c.mutex := by
          rw [← hm]
          exact h.prompt.sound.mutex_eq_of_id (mem_without.mp he).1 (mem_without.mp hd).1 hid.symm
        exact nextInLine?_le hascending hnext he hsame (h.prompt.waits_of_mutex hc howns he hsame)
      · rw [Claim.moved_of_ne hdw] at howns'
        exact h.first d (mem_without.mp hd).1 e (mem_without.mp he).1 hid howns'

/-- A claim that has been handed its mutex runs. -/
theorem resume (h : t.Queue) (hc : t.claim? k = some c) (hhanded : c.stage = .handed) :
    (t.resume k).Queue := by
  have hprompt := h.prompt.resume hc hhanded
  obtain ⟨hcmem, hck⟩ := mem_of_claim? hc
  rw [(resume_of_handed hc hhanded).1] at hprompt ⊢
  refine ⟨hprompt, ?_, ?_⟩
  · refine List.pairwise_map.mpr (h.ascending.imp ?_)
    intro d e hlt
    rw [Claim.moved_ticket, Claim.moved_ticket]
    exact hlt
  · intro d' hd' e' he' hid howns'
    obtain ⟨d, hd, rfl⟩ := mem_setStage.mp hd'
    obtain ⟨e, he, rfl⟩ := mem_setStage.mp he'
    rw [Claim.moved_ticket, Claim.moved_ticket]
    rw [Claim.moved_id, Claim.moved_id] at hid
    refine h.first d hd e he hid ?_
    by_cases hdk : d.ticket = k
    · rw [h.prompt.sound.eq_of_ticket hd hcmem (hdk.trans hck.symm), hhanded]
      rfl
    · rwa [Claim.moved_of_ne hdk] at howns'

/-- A claim that comes stands behind all others. -/
theorem acquire (h : t.Queue) (now : Nat) (id : String) (patience : Duration) :
    (t.acquire now id patience).2.Queue := by
  have hprompt := h.prompt.acquire now id patience
  have hbehind : ∀ {new : Claim}, t.fresh ≤ new.ticket →
      (t.claims ++ [new]).Pairwise fun c d => c.ticket < d.ticket := by
    intro new hnew
    refine List.pairwise_append.mpr ⟨h.ascending, List.pairwise_singleton _ _, ?_⟩
    intro d hd e he
    rw [List.mem_singleton.mp he]
    exact Nat.lt_of_lt_of_le (h.prompt.sound.given d hd) hnew
  have hfirst : ∀ {new : Claim}, t.fresh ≤ new.ticket →
      (new.stage.owns = true → ∀ d ∈ t.claims, d.id ≠ new.id) →
      ∀ c ∈ t.claims ++ [new], ∀ d ∈ t.claims ++ [new], c.id = d.id → c.stage.owns = true →
        c.ticket ≤ d.ticket := by
    intro new hnew halone c hc d hd hid howns
    rcases List.mem_append.mp hc with hc | hc <;> rcases List.mem_append.mp hd with hd | hd
    · exact h.first c hc d hd hid howns
    · rw [List.mem_singleton.mp hd]
      exact Nat.le_of_lt (Nat.lt_of_lt_of_le (h.prompt.sound.given c hc) hnew)
    · rw [List.mem_singleton.mp hc] at hid howns
      exact absurd hid.symm (halone howns d hd)
    · have hsame : c = d := (List.mem_singleton.mp hc).trans (List.mem_singleton.mp hd).symm
      exact Nat.le_of_eq (congrArg Claim.ticket hsame)
  by_cases hwanted : ∃ c ∈ t.claims, c.id = id
  · obtain ⟨c, hc, hid⟩ := hwanted
    rw [h.prompt.acquire_of_wanted hc hid] at hprompt ⊢
    exact ⟨hprompt, hbehind (Nat.le_succ _), hfirst (Nat.le_succ _) nofun⟩
  · have hnone : ∀ c ∈ t.claims, c.id ≠ id := fun c hc hid => hwanted ⟨c, hc, hid⟩
    rw [acquire_of_unwanted h.prompt.sound hnone] at hprompt ⊢
    exact ⟨hprompt, hbehind (Nat.le_succ _), hfirst (Nat.le_succ _) fun _ => hnone⟩

end Queue

/-- What one who acquires a lock adds to a table. -/
theorem Queue.acquire_spec (h : t.Queue) (now : Nat) (id : String) (patience : Duration) :
    ∃ stage, (t.acquire now id patience).2.claims = t.claims ++
        [⟨(t.acquire now id patience).1, id, (t.mutexFor id).1, patience, stage⟩] ∧
      (stage = .held ∨ stage = .waiting (now + patience.milliseconds)) ∧
      t.fresh ≤ (t.acquire now id patience).1 := by
  rw [acquire_eq h.prompt.sound]
  refine ⟨_, rfl, ?_, fresh_le_arrive t id patience⟩
  split
  · exact Or.inl rfl
  · exact Or.inr rfl

theorem mem_unheld_concat (h : u.claims = t.claims ++ [c]) :
    j ∈ u.unheld ↔ j ∈ t.unheld ∨ j = c.ticket ∧ c.stage ≠ .held := by
  simp only [mem_unheld, h, List.mem_append, List.mem_singleton]
  constructor
  · rintro ⟨d, hd | rfl, rfl, hstage⟩
    · exact Or.inl ⟨d, hd, rfl, hstage⟩
    · exact Or.inr ⟨rfl, hstage⟩
  · rintro (⟨d, hd, rfl, hstage⟩ | ⟨rfl, hstage⟩)
    · exact ⟨d, Or.inl hd, rfl, hstage⟩
    · exact ⟨c, Or.inr rfl, rfl, hstage⟩

theorem Sound.lt_of_mem_unheld (hs : t.Sound) (hj : j ∈ t.unheld) : j < t.fresh := by
  obtain ⟨c, hc, rfl, -⟩ := mem_unheld.mp hj
  exact hs.given c hc

/-! ## Whose time is up -/

theorem mem_of_overdue? (h : t.overdue? now = some c) :
    c ∈ t.claims ∧ ∃ deadline, c.stage = .waiting deadline ∧ deadline ≤ now := by
  refine ⟨List.mem_of_find?_eq_some h, ?_⟩
  have hdue := List.find?_some h
  cases hstage : c.stage with
  | waiting deadline =>
    simp only [hstage, decide_eq_true_eq] at hdue
    exact ⟨deadline, rfl, hdue⟩
  | _ =>
    simp only [hstage] at hdue
    cases hdue

theorem overdue?_eq_none : t.overdue? now = none ↔
    ∀ c ∈ t.claims, ∀ deadline, c.stage = .waiting deadline → now < deadline := by
  rw [overdue?, List.find?_eq_none]
  refine forall₂_congr fun c _ => ?_
  cases hstage : c.stage with
  | waiting deadline =>
    simp only [decide_eq_true_eq, Stage.waiting.injEq, forall_eq', Nat.not_le]
  | _ => simp

/-! ## What a release does to the others -/

/-- What becomes of a table in which no claim is about to run when a claim is released, if one is. -/
structure Passed (old : Option Nat) (t u : LockTable) : Prop where
  queue : u.Queue
  unheld : u.unheld = t.unheld
  fresh : u.fresh = t.fresh
  /-- No claim is moved but the next in line. -/
  origin : ∀ d ∈ u.claims, ∃ e ∈ t.claims,
    d = e ∨ e.stage.waits = true ∧ d = { e with stage := .handed }
  /-- Whoever holds another mutex goes on holding it. -/
  stays : ∀ d ∈ t.claims, d.stage = .held → old ≠ some d.ticket → d ∈ u.claims
  gone : ∀ d ∈ u.claims, d.stage = .held → old ≠ some d.ticket

theorem Passed.refl (h : t.Queue) : Passed none t t :=
  ⟨h, rfl, rfl, fun d hd => ⟨d, hd, Or.inl rfl⟩, fun _ hd _ _ => hd, nofun⟩

theorem Queue.release (h : t.Queue) (hquiet : ∀ c ∈ t.claims, c.stage ≠ .handed) (k : Nat) :
    Passed (some k) t (t.release k) := by
  by_cases hheld : ∃ c, t.claim? k = some c ∧ c.stage = .held
  · obtain ⟨c, hc, hheld⟩ := hheld
    have howns : c.stage.owns = true := by rw [hheld]; rfl
    have hone : ∀ d ∈ t.claims, d.stage = .handed → d.ticket = k :=
      fun d hd hstage => absurd hstage (hquiet d hd)
    have hqueue := h.lift hc howns hone
    rw [release_eq_lift h.prompt.sound h.prompt.attended hc hheld]
    refine ⟨hqueue, h.prompt.unheld_lift hc hheld, lift_fresh, ?_, ?_, ?_⟩
    · intro d hd
      obtain ⟨e, he, -, hmoved⟩ := h.prompt.mem_lift hc howns hd
      exact ⟨e, he, hmoved⟩
    · intro d hd hstage hne
      exact h.prompt.mem_lift_of_held hc howns hd (fun heq => hne (congrArg some heq.symm)) hstage
    · intro d hd _ heq
      obtain ⟨e, -, hne, rfl | ⟨-, rfl⟩⟩ := h.prompt.mem_lift hc howns hd
      · exact hne (Option.some.inj heq).symm
      · exact hne (Option.some.inj heq).symm
  · have hkept : t.release k = t := by
      unfold LockTable.release
      split
      next c hc =>
        split
        next hstage => exact absurd ⟨c, hc, hstage⟩ hheld
        next => rfl
      next => rfl
    rw [hkept]
    refine ⟨h, rfl, rfl, fun d hd => ⟨d, hd, Or.inl rfl⟩, fun _ hd _ _ => hd, ?_⟩
    rintro d hd hstage heq
    refine hheld ⟨d, h.prompt.sound.claim?_eq_some.mpr ⟨hd, (Option.some.inj heq).symm⟩, hstage⟩

namespace Passed

variable {old : Option Nat}

/-- What becomes of a claim that is not released. -/
theorem exists_claim (h : Passed old t u) (hs : t.Sound) (hc : c ∈ t.claims)
    (hkept : c.ticket ∈ t.unheld ∨ c.stage = .held ∧ old ≠ some c.ticket) :
    ∃ d ∈ u.claims, d = c ∨ c.stage.waits = true ∧ d = { c with stage := .handed } := by
  rcases hkept with hunheld | ⟨hheld, hne⟩
  · rw [← h.unheld] at hunheld
    obtain ⟨d, hd, hdc, -⟩ := mem_unheld.mp hunheld
    obtain ⟨e, he, hmoved⟩ := h.origin d hd
    have hec : e.ticket = c.ticket := by
      rcases hmoved with rfl | ⟨-, rfl⟩ <;> exact hdc
    obtain rfl := hs.eq_of_ticket he hc hec
    exact ⟨d, hd, hmoved⟩
  · exact ⟨c, h.stays c hc hheld hne, Or.inl rfl⟩

/-- Whoever waits has waited before. -/
theorem mem_of_waits (h : Passed old t u) (hd : d ∈ u.claims) (hwaits : d.stage.waits = true) :
    d ∈ t.claims := by
  obtain ⟨e, he, rfl | ⟨-, rfl⟩⟩ := h.origin d hd
  · exact he
  · cases hwaits

/-- Whoever holds its mutex has held it before. -/
theorem mem_of_held (h : Passed old t u) (hd : d ∈ u.claims) (hheld : d.stage = .held) :
    d ∈ t.claims := by
  obtain ⟨e, he, rfl | ⟨-, rfl⟩⟩ := h.origin d hd
  · exact he
  · cases hheld

end Passed

end InletRegistry.LockTable
