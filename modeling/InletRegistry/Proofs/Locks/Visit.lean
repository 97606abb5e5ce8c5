import InletRegistry.Proofs.Locks.Besides
import InletRegistry.Proofs.Locks.Eviction

/-!
# Short visits to the locks

Whoever acts while nobody else does acquires a lock and lets go of it, or waits for it in vain and gives
up. Either way nothing is left of the visit but the two numbers drawn for it, and what a departing claim
always does: a free mutex goes to the next in line, and an idle one is taken out (`visit_eq`). Whether the
lock is to be had hangs on its resource alone, so visits to the locks of two resources may come in either
order.
-/

namespace InletRegistry.LockTable

open InletRegistry.Locks InletRegistry.Lookup InletRegistry.Time

variable {t u : LockTable} {k m m' n n' now : Nat} {i j id : String} {patience patience' : Duration}
  {c d : Claim}

/-- Whether the lock of a resource is to be had at once. -/
def isOpen (t : LockTable) (id : String) : Bool :=
  match t.mutexes.lookup id with
  | some m => t.isFree m
  | none => true

/-- The table after somebody has acquired a lock and let go of it, or given up waiting for it. -/
def visit (t : LockTable) (now : Nat) (id : String) (patience : Duration) : LockTable :=
  let (k, u) := t.acquire now id patience
  if u.holds k then u.release k else u.expire k

/-- The table in which a mutex that is nobody's own has gone to the next in line. -/
def passOn (t : LockTable) (id : String) : LockTable :=
  match t.mutexes.lookup id with
  | some m => if t.isFree m then t.handOn m else t
  | none => t

/-- The same table, but for the order of those who have still to look back. -/
structure Same (t u : LockTable) : Prop where
  mutexes : t.mutexes = u.mutexes
  claims : t.claims = u.claims
  lookbacks : t.lookbacks.Perm u.lookbacks
  fresh : t.fresh = u.fresh

theorem Same.refl (t : LockTable) : Same t t := ⟨rfl, rfl, .refl _, rfl⟩

/-! ## What is left of a visit -/

/-- A claim that has just arrived finds its mutex free if the lock was to be had. -/
theorem isFree_arrive (hs : t.Sound) :
    (t.arrive id patience).2.isFree (t.mutexFor id).1 = t.isOpen id := by
  have hclaims : ∀ m, (t.arrive id patience).2.isFree m = t.isFree m := by
    intro m
    simp [isFree, arrive_claims, Stage.owns]
  rw [hclaims]
  unfold isOpen mutexFor
  cases hm : t.mutexes.lookup id with
  | some m => rfl
  | none =>
    refine isFree_iff.mpr fun c hc hcm => ?_
    have hlt := hs.made _ (mem_of_lookup (hs.seated c hc))
    exact absurd hcm (Nat.ne_of_lt hlt)

section Acquire

variable (hs : t.Sound)
include hs

theorem acquire_claims (now : Nat) (id : String) (patience : Duration) :
    (t.acquire now id patience).2.claims = t.claims ++
      [⟨(t.acquire now id patience).1, id, (t.mutexFor id).1, patience,
        if t.isOpen id then .held else .waiting (now + patience.milliseconds)⟩] := by
  have hfree : (t.arrive id patience).2.isFree (t.mutexFor id).1 = t.isOpen id := isFree_arrive hs
  rw [← hfree, acquire_eq hs]

theorem claim?_acquire_eq (now : Nat) (id : String) (patience : Duration) :
    (t.acquire now id patience).2.claim? (t.acquire now id patience).1 =
      some ⟨(t.acquire now id patience).1, id, (t.mutexFor id).1, patience,
        if t.isOpen id then .held else .waiting (now + patience.milliseconds)⟩ := by
  have hsound := (acquire_leads hs now id patience).sound hs
  rw [hsound.claim?_eq_some, acquire_claims hs]
  exact ⟨List.mem_append_right _ List.mem_cons_self, rfl⟩

theorem holds_acquire (now : Nat) (id : String) (patience : Duration) :
    (t.acquire now id patience).2.holds (t.acquire now id patience).1 = t.isOpen id := by
  rw [holds, claim?_acquire_eq hs]
  cases t.isOpen id <;> rfl

/-- On a visit to a lock that is to be had, the lock is let go of again. -/
theorem visit_of_open (hopen : t.isOpen id = true) : t.visit now id patience =
    (t.acquire now id patience).2.release (t.acquire now id patience).1 := by
  simp only [visit, holds_acquire hs, hopen, ↓reduceIte]

theorem visit_of_shut (hshut : t.isOpen id = false) : t.visit now id patience =
    (t.acquire now id patience).2.expire (t.acquire now id patience).1 := by
  simp only [visit, holds_acquire hs, hshut, Bool.false_eq_true, ↓reduceIte]

/-- Without its claim, an acquire has left nothing but the mutex that it may have put there. -/
theorem without_acquire (now : Nat) (id : String) (patience : Duration) :
    (t.acquire now id patience).2.without (t.acquire now id patience).1 =
      { (t.mutexFor id).2 with fresh := (t.mutexFor id).2.fresh + 1 } := by
  have hgone := filter_concat hs ⟨(t.acquire now id patience).1, id, (t.mutexFor id).1, patience,
    if t.isOpen id then .held else .waiting (now + patience.milliseconds)⟩ (fresh_le_arrive t id patience)
  simp only [without, acquire_claims hs, hgone]
  rw [acquire_eq hs]
  have hclaims : (t.mutexFor id).2.claims = t.claims := mutexFor_claims
  simp only [arrive, ← hclaims]

theorem Sound.visit (now : Nat) (id : String) (patience : Duration) :
    (t.visit now id patience).Sound := by
  have hsound := (acquire_leads hs now id patience).sound hs
  unfold LockTable.visit
  simp only
  split
  · exact (release_leads hsound _).sound hsound
  · exact (expire_leads _ _).sound hsound

/-- A mutex that has just been put there for a visit is taken out again. -/
theorem lookedAfter_new (hnone : t.mutexes.lookup id = none) :
    (({ t with mutexes := t.mutexes ++ [(id, t.fresh)], fresh := t.fresh + 2 } : LockTable).handOn
      t.fresh).lookedAfter id = ({ t with fresh := t.fresh + 2 } : LockTable).lookedAfter id := by
  have hnew : ∀ c ∈ t.claims, c.mutex ≠ t.fresh := fun c hc =>
    Nat.ne_of_lt (hs.made _ (mem_of_lookup (hs.seated c hc)))
  have hline : ({ t with mutexes := t.mutexes ++ [(id, t.fresh)], fresh := t.fresh + 2 } :
      LockTable).nextInLine? t.fresh = none :=
    List.find?_eq_none.mpr fun c hc hwaits => hnew c hc (waitsFor_iff.mp hwaits).1
  have hlookup : (t.mutexes ++ [(id, t.fresh)]).lookup id = some t.fresh := by
    rw [List.lookup_append, hnone]
    exact List.lookup_cons_self
  have hmutexes : (t.mutexes ++ [(id, t.fresh)]).filter (·.1 ≠ id) = t.mutexes := by
    rw [List.filter_append, List.filter_eq_self.mpr]
    · simp
    · intro e he
      have hne := List.lookup_eq_none_iff.mp hnone e he
      exact decide_eq_true fun heq => by simp [heq] at hne
  have hidle : t.claims.all (fun c => decide (c.mutex ≠ t.fresh)) = true :=
    List.all_eq_true.mpr fun c hc => decide_eq_true (hnew c hc)
  rw [handOn_eq, hline]
  simp only [lookedAfter, evict, hlookup, isIdle, hidle, ↓reduceIte, hmutexes, hnone]

/-- **What is left of a visit.** -/
theorem visit_eq (now : Nat) (id : String) (patience : Duration) :
    t.visit now id patience =
      ({ t.passOn id with fresh := t.fresh + 2 } : LockTable).lookedAfter id := by
  have hsound := (acquire_leads hs now id patience).sound hs
  have hc := claim?_acquire_eq hs now id patience
  have hwithout := without_acquire hs now id patience
  cases hopen : t.isOpen id with
  | true =>
    rw [visit_of_open hs hopen, release_eq hsound hc (by rw [hopen]; rfl), hwithout]
    unfold isOpen at hopen
    unfold passOn mutexFor
    cases hm : t.mutexes.lookup id with
    | some m =>
      rw [hm] at hopen
      simp only [hopen, ↓reduceIte, handOn_eq]
      congr 1
      have hline : ({ t with fresh := t.fresh + 1 + 1 } : LockTable).nextInLine? m = t.nextInLine? m :=
        rfl
      rw [hline]
      cases t.nextInLine? m <;> rfl
    | none => exact lookedAfter_new hs hm
  | false =>
    rw [visit_of_shut hs hopen, expire_of_waits hc (by rw [hopen]; rfl), hwithout]
    unfold isOpen at hopen
    unfold passOn mutexFor
    cases hm : t.mutexes.lookup id with
    | some m =>
      rw [hm] at hopen
      simp only [hopen, Bool.false_eq_true, ↓reduceIte]
    | none =>
      rw [hm] at hopen
      cases hopen

end Acquire

/-! ## Visits and other resources -/

theorem isOpen_besides (hs : t.Sound) (hne : id ≠ i) : (t.besides i).isOpen id = t.isOpen id := by
  have hlookup : (t.besides i).mutexes.lookup id = t.mutexes.lookup id := lookup_filter_ne hne
  unfold isOpen
  rw [hlookup]
  cases hm : t.mutexes.lookup id with
  | some m => exact isFree_besides hs hm hne
  | none => rfl

theorem besides_visit (hs : t.Sound) (hne : id ≠ i) :
    (t.besides i).visit now id patience = (t.visit now id patience).besides i := by
  have hsound := (acquire_leads hs now id patience).sound hs
  have hc := claim?_acquire_eq hs now id patience
  have hsame := isOpen_besides hs hne
  cases hopen : t.isOpen id with
  | true =>
    rw [visit_of_open (hs.besides i) (hsame.trans hopen), visit_of_open hs hopen,
      besides_acquire hs now hne patience, besides_release hsound hc (by rw [hopen]; rfl) hne]
  | false =>
    rw [visit_of_shut (hs.besides i) (hsame.trans hopen), visit_of_shut hs hopen,
      besides_acquire hs now hne patience, besides_expire hsound hc (by rw [hopen]; rfl) hne]

theorem besides_visit_self (hs : t.Sound) :
    (t.visit now i patience).besides i =
      { t.besides i with fresh := (t.visit now i patience).fresh } := by
  have hsound := (acquire_leads hs now i patience).sound hs
  have hc := claim?_acquire_eq hs now i patience
  have hsame : (t.visit now i patience).besides i = (t.acquire now i patience).2.besides i := by
    cases hopen : t.isOpen i with
    | true =>
      rw [visit_of_open hs hopen]
      exact besides_release_self hsound hc rfl (by rw [hopen]; rfl)
    | false =>
      rw [visit_of_shut hs hopen]
      exact besides_expire_self hsound hc rfl (by rw [hopen]; rfl)
  have hfresh : ((t.visit now i patience).besides i).fresh =
      ((t.acquire now i patience).2.besides i).fresh := by rw [hsame]
  rw [hsame, besides_acquire_self hs]
  exact congrArg (fun n => ({ t.besides i with fresh := n } : LockTable)) hfresh.symm

/-! ## Two mutexes are handed on -/

theorem setStage_comm (hne : k ≠ n) {stage stage' : Stage} :
    (t.setStage k stage).setStage n stage' = (t.setStage n stage').setStage k stage := by
  have hmoved : ∀ c : Claim, (c.moved k stage).moved n stage' = (c.moved n stage').moved k stage := by
    intro c
    by_cases hk : c.ticket = k
    · have hn : c.ticket ≠ n := hk ▸ hne
      rw [Claim.moved_of_ne hn, Claim.moved_of_ne (by rwa [Claim.moved_ticket])]
    · rw [Claim.moved_of_ne hk, Claim.moved_of_ne (c := c.moved n stage') (by rwa [Claim.moved_ticket])]
  simp only [setStage, List.map_map, Function.comp_def, hmoved]

/-- Whoever is handed a mutex stands in no line, and leaves all other lines as they are. -/
theorem nextInLine?_hand (hs : t.Sound) (hc : c ∈ t.claims) (hcm : c.mutex ≠ m) :
    (t.hand c.ticket).nextInLine? m = t.nextInLine? m := by
  have hout : (t.hand c.ticket).nextInLine? m = (t.without c.ticket).nextInLine? m :=
    find?_moved fun _ => Bool.and_false _
  rw [hout]
  refine nextInLine?_without fun d hd hdc => hcm ?_
  obtain ⟨hdmem, hdm, -⟩ := mem_of_nextInLine? hd
  rw [← hs.eq_of_ticket hdmem hc hdc, hdm]

theorem handOn_comm (hs : t.Sound) (hne : m ≠ m') :
    (t.handOn m).handOn m' = (t.handOn m').handOn m := by
  rw [handOn_eq t m, handOn_eq t m']
  cases hm : t.nextInLine? m with
  | none =>
    cases hm' : t.nextInLine? m' with
    | none => simp only [handOn_eq, hm, hm']
    | some d =>
      obtain ⟨hd, hdm, -⟩ := mem_of_nextInLine? hm'
      simp only [handOn_eq, hm', nextInLine?_hand hs hd (hdm.trans_ne hne.symm), hm]
  | some c =>
    obtain ⟨hc, hcm, -⟩ := mem_of_nextInLine? hm
    cases hm' : t.nextInLine? m' with
    | none => simp only [handOn_eq, hm, nextInLine?_hand hs hc (hcm.trans_ne hne), hm']
    | some d =>
      obtain ⟨hd, hdm, -⟩ := mem_of_nextInLine? hm'
      have hcd : c.ticket ≠ d.ticket := by
        intro heq
        exact hne (by rw [← hcm, hs.eq_of_ticket hc hd heq, hdm])
      simp only [handOn_eq, nextInLine?_hand hs hc (hcm.trans_ne hne), hm',
        nextInLine?_hand hs hd (hdm.trans_ne hne.symm), hm]
      exact setStage_comm hcd

/-- To whom a mutex goes does not matter to whether another is free. -/
theorem isFree_handOn (hs : t.Sound) (hne : m ≠ m') : (t.handOn m).isFree m' = t.isFree m' := by
  rw [handOn_eq]
  cases hm : t.nextInLine? m with
  | none => rfl
  | some c =>
    obtain ⟨hc, hcm, -⟩ := mem_of_nextInLine? hm
    -- Nobody who refers to the other mutex is moved.
    have hstays : ∀ d ∈ t.claims, d.mutex = m' → d.moved c.ticket .handed = d := by
      intro d hd hdm
      refine Claim.moved_of_ne fun heq => hne ?_
      rw [← hcm, ← hs.eq_of_ticket hd hc heq, hdm]
    rw [Bool.eq_iff_iff, isFree_iff, isFree_iff]
    constructor
    · intro h d hd hdm
      exact h d (mem_setStage.mpr ⟨d, hd, (hstays d hd hdm).symm⟩) hdm
    · intro h d' hd' hdm
      obtain ⟨d, hd, rfl⟩ := mem_setStage.mp hd'
      rw [Claim.moved_mutex] at hdm
      rw [hstays d hd hdm]
      exact h d hd hdm

/-! ## Two visits -/

@[simp] theorem lookedAfter_claims : (t.lookedAfter id).claims = t.claims := evict_claims

@[simp] theorem lookedAfter_fresh : (t.lookedAfter id).fresh = t.fresh := evict_fresh

@[simp] theorem lookedAfter_lookbacks :
    (t.lookedAfter id).lookbacks = (t.lookbacks ++ [id]).erase id := evict_lookbacks

/-- Passing a mutex on hands it to one claim at most. -/
theorem passOn_cases (t : LockTable) (id : String) :
    t.passOn id = t ∨ ∃ k, t.passOn id = t.hand k := by
  unfold passOn
  split
  · split
    · rw [handOn_eq]
      split
      · exact Or.inr ⟨_, rfl⟩
      · exact Or.inl rfl
    · exact Or.inl rfl
  · exact Or.inl rfl

theorem passOn_eq (t : LockTable) (id : String) :
    t.passOn id = { t with claims := (t.passOn id).claims } ∧
      (t.passOn id).claims.map (·.mutex) = t.claims.map (·.mutex) := by
  rcases passOn_cases t id with hsame | ⟨k, hmoved⟩
  · rw [hsame]
    exact ⟨rfl, rfl⟩
  · rw [hmoved]
    refine ⟨rfl, ?_⟩
    simp only [hand, setStage, List.map_map, Function.comp_def, Claim.moved_mutex]

theorem evict_eq (t : LockTable) (id : String) :
    t.evict id = if (t.mutexes.lookup id).any t.isIdle then
      { t with mutexes := t.mutexes.filter (·.1 ≠ id) } else t := by
  unfold evict
  cases t.mutexes.lookup id <;> rfl

/-- Whether a mutex is idle hangs on the mutexes to which claims refer. -/
theorem isIdle_congr (h : t.claims.map (·.mutex) = u.claims.map (·.mutex)) : t.isIdle = u.isIdle := by
  have hall : ∀ v : LockTable, v.isIdle = fun m => (v.claims.map (·.mutex)).all (· ≠ m) := by
    intro v
    funext m
    rw [List.all_map]
    rfl
  rw [hall, hall, h]

theorem evict_mutexes_congr (hmutexes : t.mutexes = u.mutexes)
    (hclaims : t.claims.map (·.mutex) = u.claims.map (·.mutex)) :
    (t.evict id).mutexes = (u.evict id).mutexes := by
  rw [evict_eq, evict_eq, isIdle_congr hclaims, hmutexes]
  split
  · rfl
  · exact hmutexes

theorem evict_comm (hne : i ≠ j) : (t.evict i).evict j = (t.evict j).evict i := by
  have hidle : ∀ id, (t.evict id).isIdle = t.isIdle := fun id => isIdle_congr (by rw [evict_claims])
  rw [evict_eq (t.evict i), evict_eq (t.evict j), lookup_evict_ne hne, lookup_evict_ne hne.symm,
    hidle, hidle, evict_eq t i, evict_eq t j]
  by_cases hi : (t.mutexes.lookup i).any t.isIdle = true <;>
    by_cases hj : (t.mutexes.lookup j).any t.isIdle = true <;>
      simp only [hi, hj, ↓reduceIte, Bool.false_eq_true, List.filter_filter, Bool.and_comm]

theorem passOn_lookup (t : LockTable) (i j : String) :
    (t.passOn i).mutexes.lookup j = t.mutexes.lookup j := by
  rw [(passOn_eq t i).1]

theorem passOn_claims_congr (hlookup : t.mutexes.lookup id = u.mutexes.lookup id)
    (hclaims : t.claims = u.claims) : (t.passOn id).claims = (u.passOn id).claims := by
  unfold passOn
  rw [hlookup]
  cases u.mutexes.lookup id with
  | none => exact hclaims
  | some m =>
    have hfree : t.isFree m = u.isFree m := by simp only [isFree, hclaims]
    have hnext : t.nextInLine? m = u.nextInLine? m := by simp only [nextInLine?, hclaims]
    simp only [hfree, handOn_eq, hnext]
    split
    · cases u.nextInLine? m with
      | none => exact hclaims
      | some c => simp only [hand, setStage, hclaims]
    · exact hclaims

/-- Two resources have two mutexes. -/
theorem Sound.mutex_ne (hs : t.Sound) (hne : i ≠ j) (hi : t.mutexes.lookup i = some m)
    (hj : t.mutexes.lookup j = some m') : m ≠ m' := by
  intro heq
  have hsame := List.inj_on_of_nodup_map hs.apart (mem_of_lookup hi) (mem_of_lookup hj) heq
  exact hne (congrArg Prod.fst hsame)

theorem isFree_passOn (hs : t.Sound) (hne : i ≠ j) (hj : t.mutexes.lookup j = some m) :
    (t.passOn i).isFree m = t.isFree m := by
  unfold passOn
  cases hi : t.mutexes.lookup i with
  | none => rfl
  | some n =>
    simp only
    split
    · exact isFree_handOn hs (hs.mutex_ne hne hi hj)
    · rfl

theorem passOn_comm (hs : t.Sound) (hne : i ≠ j) :
    (t.passOn i).passOn j = (t.passOn j).passOn i := by
  rw [passOn.eq_1 (t.passOn i), passOn.eq_1 (t.passOn j), passOn_lookup, passOn_lookup]
  cases hi : t.mutexes.lookup i with
  | none =>
    have hstays : t.passOn i = t := by simp only [passOn, hi]
    rw [hstays]
    rfl
  | some m =>
    cases hj : t.mutexes.lookup j with
    | none =>
      have hstays : t.passOn j = t := by simp only [passOn, hj]
      rw [hstays, passOn, hi]
    | some m' =>
      have hpassi : t.passOn i = if t.isFree m then t.handOn m else t := by simp only [passOn, hi]
      have hpassj : t.passOn j = if t.isFree m' then t.handOn m' else t := by simp only [passOn, hj]
      simp only
      rw [isFree_passOn hs hne hj, isFree_passOn hs hne.symm hi, hpassi, hpassj]
      have hcomm := handOn_comm hs (hs.mutex_ne hne hi hj)
      cases t.isFree m <;> cases t.isFree m' <;>
        simp only [Bool.false_eq_true, ↓reduceIte, hcomm]

section Visit

variable (hs : t.Sound)
include hs

theorem visit_claims : (t.visit now id patience).claims = (t.passOn id).claims := by
  rw [visit_eq hs, lookedAfter_claims]

theorem visit_fresh : (t.visit now id patience).fresh = t.fresh + 2 := by
  rw [visit_eq hs, lookedAfter_fresh]

/-- Whoever departs and looks back leaves those who have still to. -/
theorem visit_lookbacks : (t.visit now id patience).lookbacks.Perm t.lookbacks := by
  have hsame : (t.passOn id).lookbacks = t.lookbacks := by rw [(passOn_eq t id).1]
  rw [visit_eq hs, lookedAfter_lookbacks, hsame]
  refine ((List.perm_append_singleton id t.lookbacks).erase id).trans ?_
  rw [List.erase_cons_head]

theorem visit_mutexes : (t.visit now id patience).mutexes = (t.evict id).mutexes := by
  rw [visit_eq hs, lookedAfter]
  refine evict_mutexes_congr ?_ (passOn_eq t id).2
  rw [(passOn_eq t id).1]

/-- What another resource has in the table stays. -/
theorem lookup_visit (hne : i ≠ j) :
    (t.visit now i patience).mutexes.lookup j = t.mutexes.lookup j := by
  rw [visit_mutexes hs, lookup_evict_ne hne.symm]

/-- **Whether a lock is to be had does not hang on a visit to another.** -/
theorem isOpen_visit (hne : i ≠ j) : (t.visit now i patience).isOpen j = t.isOpen j := by
  unfold isOpen
  rw [lookup_visit hs hne]
  cases hj : t.mutexes.lookup j with
  | none => rfl
  | some m =>
    have hfree : (t.visit now i patience).isFree m = (t.passOn i).isFree m := by
      simp only [isFree, visit_claims hs]
    exact hfree.trans (isFree_passOn hs hne hj)

theorem passOn_visit_claims (hne : i ≠ j) :
    ((t.visit now i patience).passOn j).claims = ((t.passOn i).passOn j).claims :=
  passOn_claims_congr (by rw [lookup_visit hs hne, passOn_lookup]) (visit_claims hs)

theorem visit_visit_mutexes :
    ((t.visit n i patience).visit n' j patience').mutexes = ((t.evict i).evict j).mutexes := by
  rw [visit_mutexes (hs.visit n i patience)]
  refine evict_mutexes_congr (visit_mutexes hs) ?_
  rw [visit_claims hs, (passOn_eq t i).2, evict_claims]

end Visit

/-- How long and since when one is ready to wait does not matter in the end. -/
theorem visit_same (hs : t.Sound) : t.visit n id patience = t.visit n' id patience' := by
  rw [visit_eq hs, visit_eq hs]

/-- Whoever waits for a mutex, or has been handed it, is there after a visit. -/
theorem keeps_visit (hs : t.Sound) :
    t.Keeps (t.acquire now id patience).1 (t.visit now id patience) := by
  have hsound := (acquire_leads hs now id patience).sound hs
  have hc := claim?_acquire_eq hs now id patience
  refine (keeps_acquire hs now id patience).trans ?_
  cases hopen : t.isOpen id with
  | true =>
    rw [visit_of_open hs hopen]
    exact keeps_release hsound hc (by rw [hopen]; rfl)
  | false =>
    rw [visit_of_shut hs hopen]
    exact keeps_expire hc (by rw [hopen]; rfl)

/-- **Visits to two resources may come in either order.** -/
theorem visit_comm (hs : t.Sound) (hne : i ≠ j) :
    Same ((t.visit n i patience).visit n' j patience')
      ((t.visit m j patience').visit m' i patience) := by
  have hi := hs.visit n i patience
  have hj := hs.visit m j patience'
  refine ⟨?_, ?_, ?_, ?_⟩
  · rw [visit_visit_mutexes hs, visit_visit_mutexes hs, evict_comm hne]
  · rw [visit_claims hi, visit_claims hj, passOn_visit_claims hs hne,
      passOn_visit_claims hs hne.symm, passOn_comm hs hne]
  · exact ((visit_lookbacks hi).trans (visit_lookbacks hs)).trans
      ((visit_lookbacks hj).trans (visit_lookbacks hs)).symm
  · rw [visit_fresh hi, visit_fresh hj, visit_fresh hs, visit_fresh hs]

end InletRegistry.LockTable
