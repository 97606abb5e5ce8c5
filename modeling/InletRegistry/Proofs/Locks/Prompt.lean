import InletRegistry.Proofs.Locks.Acting

/-!
# Claims that do not pause

Where every claim that acts acts at once, a table is only ever seen with claims that wait and claims
that have their mutex for their own, and a mutex that is wanted is somebody's own (`Prompt`). Whatever
way a claim leaves such a table, `lift` is what is left: the claim is gone, and a mutex that was its own
is handed on or taken out. Only a claim that is dropped after it has been handed its mutex leaves the
mutex in the table, even if nobody else wants it (`cancel_of_handed`).

Two claims, one of which waits, may be lifted in either order (`lift_comm`). The queue is why this takes
an argument: if the one that waits is next in line, it is handed the mutex by the one that goes, and
hands it on when it goes itself.
-/

namespace InletRegistry.LockTable

open InletRegistry.Locks InletRegistry.Lookup InletRegistry.Time

variable {t : LockTable} {a k m now : Nat} {id : String} {patience : Duration} {c d : Claim}
  {stage : Stage} {claims : List Claim} {p : Claim → Bool} {b : Bool}

/-- What holds of a table while no claim is on its way. -/
structure Prompt (t : LockTable) : Prop where
  sound : t.Sound
  /-- Nobody has still to look back. -/
  attended : t.lookbacks = []
  placed : ∀ c ∈ t.claims, c.stage.owns = true ∨ c.stage.waits = true
  /-- A mutex that is wanted is the own of a claim. -/
  owned : ∀ c ∈ t.claims, ∃ d ∈ t.claims, d.mutex = c.mutex ∧ d.stage.owns = true
  /-- One claim at most has been handed a mutex and has not run since. -/
  single : ∀ c ∈ t.claims, ∀ d ∈ t.claims, c.stage = .handed → d.stage = .handed →
    c.ticket = d.ticket

/-- The table without a claim. -/
def without (t : LockTable) (k : Nat) : LockTable :=
  { t with claims := t.claims.filter (·.ticket ≠ k) }

/-- The table once a claim is gone: a mutex that was its own is handed on, or taken out. -/
def lift (t : LockTable) (k : Nat) : LockTable :=
  match t.claim? k with
  | some c => if c.stage.owns then ((t.without k).handOn c.mutex).evict c.id else t.without k
  | none => t

/-- Whether a claim waits for a mutex. -/
def waitsFor (m : Nat) (c : Claim) : Bool := c.mutex = m && c.stage.waits

/-- The claim that is handed a mutex next. -/
def nextInLine? (t : LockTable) (m : Nat) : Option Claim := t.claims.find? (waitsFor m)

/-! ## Lists of claims -/

theorem find?_without (h : ∀ c, claims.find? p = some c → c.ticket ≠ a) :
    (claims.filter (·.ticket ≠ a)).find? p = claims.find? p := by
  induction claims with
  | nil => rfl
  | cons c claims ih =>
    cases hp : p c with
    | true =>
      have hne : c.ticket ≠ a := h c (List.find?_cons_of_pos hp)
      rw [List.filter_cons, if_pos (decide_eq_true hne), List.find?_cons_of_pos hp,
        List.find?_cons_of_pos hp]
    | false =>
      have hrest : claims.find? p = (c :: claims).find? p := by rw [List.find?_cons, hp]
      rw [← hrest, ← ih fun d hd => h d (hrest ▸ hd), List.filter_cons]
      split
      · rw [List.find?_cons, hp]
      · rfl

theorem find?_moved (h : ∀ c : Claim, p { c with stage } = false) :
    (claims.map (Claim.moved k stage)).find? p = (claims.filter (·.ticket ≠ k)).find? p := by
  induction claims with
  | nil => rfl
  | cons c claims ih =>
    rw [List.map_cons, List.find?_cons, ih, List.filter_cons]
    by_cases hc : c.ticket = k
    · rw [Claim.moved_of_ticket hc, h c]
      simp only [hc, ne_eq, not_true_eq_false, decide_false, Bool.false_eq_true, ↓reduceIte]
    · rw [Claim.moved_of_ne hc, if_pos (decide_eq_true hc), List.find?_cons]

/-- Where a claim stood does not matter once it is gone. -/
theorem filter_moved :
    (claims.map (Claim.moved k stage)).filter (·.ticket ≠ k) = claims.filter (·.ticket ≠ k) := by
  rw [List.filter_map]
  simp only [Function.comp_def, Claim.moved_ticket]
  refine (List.map_congr_left ?_).trans (List.map_id _)
  intro c hc
  exact Claim.moved_of_ne (of_decide_eq_true (List.mem_filter.mp hc).2)

/-! ## The claim that runs next -/

theorem claim?_of_handed? (hs : t.Sound) (h : t.handed? = some c) :
    t.claim? c.ticket = some c ∧ c.stage = .handed :=
  ⟨hs.claim?_eq_some.mpr ⟨List.mem_of_find?_eq_some h, rfl⟩, of_decide_eq_true
    (List.find?_some (p := fun c : Claim => decide (c.stage = .handed)) h)⟩

theorem ne_handed_of_none (h : t.handed? = none) (hc : c ∈ t.claims) : c.stage ≠ .handed := by
  intro hstage
  exact List.find?_eq_none.mp h c hc (decide_eq_true hstage)

/-! ## A table without a claim -/

theorem mem_without : c ∈ (t.without k).claims ↔ c ∈ t.claims ∧ c.ticket ≠ k := by
  simp only [without, List.mem_filter, decide_eq_true_eq]

theorem claim?_without_ne (h : a ≠ k) : (t.without k).claim? a = t.claim? a := by
  refine find?_without ?_
  intro c hc
  rw [of_decide_eq_true (List.find?_some (p := fun c : Claim => decide (c.ticket = a)) hc)]
  exact h

theorem without_comm (t : LockTable) (a k : Nat) :
    (t.without a).without k = (t.without k).without a := by
  simp only [without, List.filter_filter, Bool.and_comm]

theorem setStage_without_self : (t.setStage k stage).without k = t.without k := by
  simp only [without, setStage, filter_moved]

theorem setStage_without : (t.setStage a stage).without k = (t.without k).setStage a stage := by
  simp only [without, setStage, List.filter_map, Function.comp_def, Claim.moved_ticket]

/-- A claim that will not look back departs without a trace. -/
theorem depart_eq_without (hc : t.claim? k = some c) (hstage : c.stage ≠ .leaving true) :
    t.depart k = t.without k := by
  simp only [depart, hc, hstage, ↓reduceIte, without]

/-! ## The next in line -/

theorem waitsFor_iff : waitsFor m c = true ↔ c.mutex = m ∧ c.stage.waits = true := by
  simp only [waitsFor, Bool.and_eq_true, decide_eq_true_eq]

theorem handOn_eq (t : LockTable) (m : Nat) :
    t.handOn m = match t.nextInLine? m with
      | some c => t.hand c.ticket
      | none => t := rfl

theorem mem_of_nextInLine? (h : t.nextInLine? m = some c) :
    c ∈ t.claims ∧ c.mutex = m ∧ c.stage.waits = true :=
  ⟨List.mem_of_find?_eq_some h, waitsFor_iff.mp (List.find?_some h)⟩

/-- Whoever is not next in line may go without a change to who is. -/
theorem nextInLine?_without (h : ∀ c, t.nextInLine? m = some c → c.ticket ≠ a) :
    (t.without a).nextInLine? m = t.nextInLine? m := find?_without h

/-- A claim that leaves stands in no line. -/
theorem nextInLine?_letGo : (t.letGo k b).nextInLine? m = (t.without k).nextInLine? m :=
  find?_moved fun _ => Bool.and_false _

theorem handOn_letGo_without : ((t.letGo k b).handOn m).without k = (t.without k).handOn m := by
  rw [handOn_eq, handOn_eq, nextInLine?_letGo]
  cases (t.without k).nextInLine? m with
  | none => exact setStage_without_self
  | some c =>
    show ((t.setStage k (.leaving b)).setStage c.ticket .handed).without k =
      (t.without k).setStage c.ticket .handed
    rw [setStage_without, setStage_without_self]

/-! ## Eviction -/

/-- A mutex that a claim refers to stays in the table. -/
theorem evict_of_claim (hc : c ∈ t.claims) (hm : t.mutexes.lookup id = some c.mutex) :
    t.evict id = t := by
  have hidle : t.isIdle c.mutex = false := by
    refine Bool.eq_false_iff.mpr fun h => ?_
    have := List.all_eq_true.mp h c hc
    simp only [ne_eq, not_true_eq_false, decide_false, Bool.false_eq_true] at this
  simp only [evict, hm, hidle, Bool.false_eq_true, ↓reduceIte]

/-- A mutex that nobody wants is taken out when somebody looks, if it is there. -/
theorem evict_of_unwanted (hs : t.Sound) (hnone : ∀ c ∈ t.claims, c.id ≠ id) :
    t.evict id = { t with mutexes := t.mutexes.filter (·.1 ≠ id) } := by
  cases hm : t.mutexes.lookup id with
  | some m =>
    have hidle : t.isIdle m = true := List.all_eq_true.mpr fun c hc =>
      decide_eq_true fun hcm => hnone c hc (hs.id_eq_of_lookup hm hc hcm)
    simp only [evict, hm, hidle, ↓reduceIte]
  | none =>
    have hkept : t.mutexes.filter (·.1 ≠ id) = t.mutexes := by
      rw [List.filter_eq_self]
      intro e he
      have hne := List.lookup_eq_none_iff.mp hm e he
      exact decide_eq_true fun heq => by simp [heq] at hne
    simp only [evict, hm, hkept]

/-! ## Every way out is `lift` -/

/-- A claim that leaves, departs and looks back where nobody else has to leaves an eviction behind. -/
theorem lookBack_depart (hlook : t.lookbacks = []) (hc : t.claim? k = some c)
    (hstage : c.stage = .leaving true) : (t.depart k).lookBack c.id = (t.without k).evict c.id := by
  have hnone : [c.id].erase c.id = [] := List.erase_cons_head _ _
  simp only [lookBack, depart, hc, hstage, ↓reduceIte, hlook, List.nil_append, hnone, without]

/-- A holder that releases its mutex is lifted. -/
theorem release_eq_lift (hs : t.Sound) (hlook : t.lookbacks = []) (hc : t.claim? k = some c)
    (hheld : c.stage = .held) : t.release k = t.lift k := by
  have hown : c.stage.owns = true := by rw [hheld]; rfl
  obtain ⟨hnext, -⟩ := release_drifts hs hc hheld
  obtain ⟨-, hleaving⟩ := letGo_handOn_drifts (b := true) hs hc hown (hs.next hnext)
  have hlook' : ((t.letGo k true).handOn c.mutex).lookbacks = [] := by
    rw [handOn_eq]
    split <;> exact hlook
  simp only [release, lift, hc, hheld, Stage.owns, ↓reduceIte]
  rw [← handOn_letGo_without]
  exact lookBack_depart (c := { c with stage := .leaving true }) hlook' hleaving rfl

theorem owns_of_waits (h : stage.waits = true) : stage.owns = false := by
  cases stage with
  | waiting => rfl
  | _ => cases h

theorem lift_of_waits (hc : t.claim? k = some c) (hwaits : c.stage.waits = true) :
    t.lift k = t.without k := by
  simp only [lift, hc, owns_of_waits hwaits, Bool.false_eq_true, ↓reduceIte]

theorem lift_of_owns (hc : t.claim? k = some c) (howns : c.stage.owns = true) :
    t.lift k = ((t.without k).handOn c.mutex).evict c.id := by
  simp only [lift, hc, howns, ↓reduceIte]

/-- The mutex for which a claim waits stays with its owner when the claim goes. -/
theorem Prompt.exists_other_owner (h : t.Prompt) (hc : t.claim? k = some c)
    (hwaits : c.stage.waits = true) :
    ∃ d ∈ (t.without k).claims, d.mutex = c.mutex ∧ d.stage.owns = true := by
  obtain ⟨hcmem, hck⟩ := mem_of_claim? hc
  obtain ⟨d, hd, hm, howns⟩ := h.owned c hcmem
  refine ⟨d, mem_without.mpr ⟨hd, fun hdk => ?_⟩, hm, howns⟩
  obtain rfl := h.sound.eq_of_ticket hd hcmem (hdk.trans hck.symm)
  rw [owns_of_waits hwaits] at howns
  cases howns

/-- A claim that waits is lifted when its time is up. -/
theorem expire_eq_lift (h : t.Prompt) (hc : t.claim? k = some c) (hwaits : c.stage.waits = true) :
    t.expire k = t.lift k := by
  obtain ⟨d, hd, hm, -⟩ := h.exists_other_owner hc hwaits
  have hseat : t.mutexes.lookup c.id = some d.mutex := by
    rw [hm]
    exact h.sound.seated c (mem_of_claim? hc).1
  rw [lift_of_waits hc hwaits]
  simp only [expire, hc, hwaits, ↓reduceIte]
  have hgone : ((t.letGo k true).depart k).lookBack c.id = ((t.letGo k true).without k).evict c.id :=
    lookBack_depart (c := { c with stage := .leaving true }) h.attended (claim?_letGo hc) rfl
  rw [hgone, letGo, setStage_without_self]
  exact evict_of_claim hd hseat

/-- A claim that waits is lifted when it is dropped. -/
theorem cancel_eq_lift (hc : t.claim? k = some c) (hwaits : c.stage.waits = true) :
    t.cancel k = t.lift k := by
  rw [lift_of_waits hc hwaits]
  simp only [cancel, hc, hwaits, ↓reduceIte]
  rw [depart_eq_without (claim?_letGo (b := false) hc) (by simp), letGo, setStage_without_self]

/-- A claim that is dropped when it has been handed its mutex hands it on, and does not look whether
anybody is left who wants it. -/
theorem cancel_of_handed (hs : t.Sound) (hc : t.claim? k = some c) (hhanded : c.stage = .handed) :
    t.cancel k = (t.without k).handOn c.mutex := by
  have hown : c.stage.owns = true := by rw [hhanded]; rfl
  have hsuspended : c.stage.isSuspended = true := by rw [hhanded]; rfl
  obtain ⟨hnext, -⟩ := cancel_drifts hs hc hsuspended
  obtain ⟨-, hleaving⟩ := letGo_handOn_drifts (b := false) hs hc hown (hs.next hnext)
  simp only [cancel, hc, hhanded, Stage.waits, Bool.false_eq_true, ↓reduceIte]
  rw [depart_eq_without hleaving (by simp), handOn_letGo_without]

/-- A claim that goes on is where it may let go. -/
theorem resume_of_handed (hc : t.claim? k = some c) (hhanded : c.stage = .handed) :
    t.resume k = t.setStage k .held ∧
      (t.resume k).claim? k = some { c with stage := .held } := by
  have hresume : t.resume k = t.setStage k .held := by
    simp only [resume, hc, hhanded, ↓reduceIte]
  refine ⟨hresume, ?_⟩
  rw [hresume, claim?_setStage, hc, Option.map_some, Claim.moved_of_ticket (mem_of_claim? hc).2]

/-- A claim that goes on and lets go at once is lifted. -/
theorem release_resume_eq_lift (h : t.Prompt) (hc : t.claim? k = some c)
    (hhanded : c.stage = .handed) : (t.resume k).release k = t.lift k := by
  have hs : (t.resume k).Sound := (resume_drifts t k).sound h.sound
  obtain ⟨hresume, hheld⟩ := resume_of_handed hc hhanded
  have hlook : (t.resume k).lookbacks = [] := by
    rw [hresume]
    exact h.attended
  rw [release_eq_lift hs hlook hheld rfl, lift_of_owns hheld rfl,
    lift_of_owns hc (by rw [hhanded]; rfl), hresume, setStage_without_self]

/-! ## Prompt tables stay prompt -/

theorem Sound.without (hs : t.Sound) (hc : t.claim? k = some c) (hstage : c.stage ≠ .leaving true) :
    (t.without k).Sound := by
  rw [← depart_eq_without hc hstage]
  exact hs.depart hc

namespace Prompt

theorem empty : LockTable.empty.Prompt := ⟨Sound.empty, rfl, nofun, nofun, nofun⟩

/-- No claim of a prompt table is about to leave. -/
theorem not_leaving (h : t.Prompt) (hc : t.claim? k = some c) : c.stage ≠ .leaving b := by
  intro hstage
  rcases h.placed c (mem_of_claim? hc).1 with hplace | hplace <;>
    (rw [hstage] at hplace; cases hplace)

/-- Whoever shares a mutex with its owner waits for it. -/
theorem waits_of_mutex (h : t.Prompt) (hc : t.claim? k = some c) (howns : c.stage.owns = true)
    (hd : d ∈ (t.without k).claims) (hm : d.mutex = c.mutex) : d.stage.waits = true := by
  obtain ⟨hcmem, hck⟩ := mem_of_claim? hc
  obtain ⟨hdmem, hdk⟩ := mem_without.mp hd
  rcases h.placed d hdmem with hdown | hwaits
  · exact absurd ((h.sound.exclusive d hdmem c hcmem hm hdown howns).trans hck) hdk
  · exact hwaits

theorem without (h : t.Prompt) (hc : t.claim? k = some c) (hwaits : c.stage.waits = true) :
    (t.without k).Prompt := by
  obtain ⟨hcmem, hck⟩ := mem_of_claim? hc
  refine ⟨h.sound.without hc (h.not_leaving hc), h.attended, ?_, ?_, ?_⟩
  · exact fun d hd => h.placed d (mem_without.mp hd).1
  · intro e he
    obtain ⟨d, hd, hm, howns⟩ := h.owned e (mem_without.mp he).1
    refine ⟨d, mem_without.mpr ⟨hd, fun hdk => ?_⟩, hm, howns⟩
    obtain rfl := h.sound.eq_of_ticket hd hcmem (hdk.trans hck.symm)
    rw [owns_of_waits hwaits] at howns
    cases howns
  · exact fun d hd x hx => h.single d (mem_without.mp hd).1 x (mem_without.mp hx).1

/-- A mutex may be taken out if it is idle. -/
theorem evict (h : t.Prompt) (id : String) : (t.evict id).Prompt := by
  refine ⟨h.sound.evict id, ?_, ?_, ?_, ?_⟩
  · rw [evict_lookbacks]
    exact h.attended
  all_goals rw [evict_claims]
  · exact h.placed
  · exact h.owned
  · exact h.single

/-- What is left when an owner goes and nobody stands in line: its mutex is taken out. -/
theorem lift_of_none (h : t.Prompt) (hc : t.claim? k = some c) (howns : c.stage.owns = true)
    (hnone : (t.without k).nextInLine? c.mutex = none) :
    t.lift k = { t.without k with mutexes := t.mutexes.filter (·.1 ≠ c.id) } := by
  have hcmem := (mem_of_claim? hc).1
  have hunwanted : ∀ d ∈ (t.without k).claims, d.id ≠ c.id := by
    intro d hd hid
    have hm := h.sound.mutex_eq_of_id (mem_without.mp hd).1 hcmem hid
    exact List.find?_eq_none.mp hnone d hd (waitsFor_iff.mpr ⟨hm, h.waits_of_mutex hc howns hd hm⟩)
  have hsound := h.sound.without hc (h.not_leaving hc)
  rw [lift_of_owns hc howns, handOn_eq, hnone]
  exact evict_of_unwanted hsound hunwanted

/-- What is left when an owner goes and another claim is next in line. -/
theorem lift_of_some (h : t.Prompt) (hc : t.claim? k = some c) (howns : c.stage.owns = true)
    (hnext : (t.without k).nextInLine? c.mutex = some d) :
    t.lift k = (t.without k).hand d.ticket := by
  obtain ⟨hd, hm, -⟩ := mem_of_nextInLine? hnext
  have hdmem : d.moved d.ticket .handed ∈ ((t.without k).hand d.ticket).claims :=
    mem_setStage.mpr ⟨d, hd, rfl⟩
  rw [lift_of_owns hc howns, handOn_eq, hnext]
  refine evict_of_claim hdmem ?_
  rw [Claim.moved_mutex, hm]
  exact h.sound.seated c (mem_of_claim? hc).1

/-- A claim that comes to own its mutex has its place. -/
theorem placed_moved (hplaced : d.stage.owns = true ∨ d.stage.waits = true)
    (howns : stage.owns = true) :
    (d.moved k stage).stage.owns = true ∨ (d.moved k stage).stage.waits = true := by
  by_cases hdk : d.ticket = k
  · rw [Claim.moved_of_ticket hdk]
    exact Or.inl howns
  · rw [Claim.moved_of_ne hdk]
    exact hplaced

theorem owns_moved (hd : d.stage.owns = true) (howns : stage.owns = true) :
    (d.moved k stage).stage.owns = true := by
  by_cases hdk : d.ticket = k
  · rw [Claim.moved_of_ticket hdk]
    exact howns
  · rw [Claim.moved_of_ne hdk]
    exact hd

theorem sound_handOn (h : t.Prompt) (hc : t.claim? k = some c) (howns : c.stage.owns = true) :
    ((t.without k).handOn c.mutex).Sound := by
  have hsound : (t.without k).Sound := h.sound.without hc (h.not_leaving hc)
  refine (handOn_drifts hsound ?_).sound hsound
  rw [isFree_iff]
  exact fun d hd hm => owns_of_waits (h.waits_of_mutex hc howns hd hm)

/-- A table in which nobody else has been handed a mutex stays prompt when an owner goes and its mutex
is handed on. -/
theorem handOn (h : t.Prompt) (hc : t.claim? k = some c) (howns : c.stage.owns = true)
    (hone : ∀ d ∈ t.claims, d.stage = .handed → d.ticket = k) :
    ((t.without k).handOn c.mutex).Prompt := by
  obtain ⟨hcmem, hck⟩ := mem_of_claim? hc
  have hpassed := h.sound_handOn hc howns
  have hquiet : ∀ d ∈ (t.without k).claims, d.stage ≠ .handed := fun d hd hstage =>
    (mem_without.mp hd).2 (hone d (mem_without.mp hd).1 hstage)
  -- Another claim on the mutex of the one that goes would be next in line.
  have hline : ∀ d ∈ (t.without k).claims, d.mutex = c.mutex →
      (t.without k).nextInLine? c.mutex ≠ none := fun d hd hm hnone =>
    List.find?_eq_none.mp hnone d hd (waitsFor_iff.mpr ⟨hm, h.waits_of_mutex hc howns hd hm⟩)
  rw [handOn_eq] at hpassed ⊢
  cases hnext : (t.without k).nextInLine? c.mutex with
  | none =>
    rw [hnext] at hpassed
    refine ⟨hpassed, h.attended, fun d hd => h.placed d (mem_without.mp hd).1, ?_,
      fun d hd _ _ hstage => absurd hstage (hquiet d hd)⟩
    intro e he
    obtain ⟨d, hd, hm, hdown⟩ := h.owned e (mem_without.mp he).1
    refine ⟨d, mem_without.mpr ⟨hd, fun hdk => ?_⟩, hm, hdown⟩
    obtain rfl := h.sound.eq_of_ticket hd hcmem (hdk.trans hck.symm)
    exact hline e he hm.symm hnext
  | some w =>
    rw [hnext] at hpassed
    obtain ⟨hw, hm, -⟩ := mem_of_nextInLine? hnext
    refine ⟨hpassed, h.attended, ?_, ?_, ?_⟩
    · intro d' hd'
      obtain ⟨d, hd, rfl⟩ := mem_setStage.mp hd'
      exact placed_moved (h.placed d (mem_without.mp hd).1) rfl
    · intro e' he'
      obtain ⟨e, he, rfl⟩ := mem_setStage.mp he'
      obtain ⟨d, hd, hde, hdown⟩ := h.owned e (mem_without.mp he).1
      rw [Claim.moved_mutex]
      by_cases hdk : d.ticket = k
      · obtain rfl := h.sound.eq_of_ticket hd hcmem (hdk.trans hck.symm)
        refine ⟨w.moved w.ticket .handed, mem_setStage.mpr ⟨w, hw, rfl⟩, ?_, ?_⟩
        · rw [Claim.moved_mutex, hm, hde]
        · rw [Claim.moved_of_ticket rfl]
          rfl
      · refine ⟨d.moved w.ticket .handed, mem_setStage.mpr ⟨d, mem_without.mpr ⟨hd, hdk⟩, rfl⟩, ?_,
          owns_moved hdown rfl⟩
        rw [Claim.moved_mutex, hde]
    · intro x' hx' y' hy' hxstage hystage
      have hmoved : ∀ d' ∈ ((t.without k).hand w.ticket).claims, d'.stage = .handed →
          d'.ticket = w.ticket := by
        intro d' hd' hstage
        obtain ⟨d, hd, rfl⟩ := mem_setStage.mp hd'
        rw [Claim.moved_ticket]
        by_contra hdw
        rw [Claim.moved_of_ne hdw] at hstage
        exact hquiet d hd hstage
      exact (hmoved x' hx' hxstage).trans (hmoved y' hy' hystage).symm

/-- A table in which nobody else has been handed a mutex stays prompt when an owner is lifted. -/
theorem lift_owner (h : t.Prompt) (hc : t.claim? k = some c) (howns : c.stage.owns = true)
    (hone : ∀ d ∈ t.claims, d.stage = .handed → d.ticket = k) : (t.lift k).Prompt := by
  rw [lift_of_owns hc howns]
  exact (h.handOn hc howns hone).evict c.id

/-- A table stays prompt when a claim is dropped. -/
theorem cancel (h : t.Prompt) (hc : t.claim? k = some c) (hsuspended : c.stage.isSuspended = true) :
    (t.cancel k).Prompt := by
  obtain ⟨hcmem, hck⟩ := mem_of_claim? hc
  rcases Stage.waits_or_handed hsuspended with hwaits | hhanded
  · rw [cancel_eq_lift hc hwaits, lift_of_waits hc hwaits]
    exact h.without hc hwaits
  · rw [cancel_of_handed h.sound hc hhanded]
    refine h.handOn hc (by rw [hhanded]; rfl) fun d hd hstage => ?_
    exact (h.single d hd c hcmem hstage hhanded).trans hck

/-- To be lifted is to be dropped with a look back. -/
theorem lift_eq_evict_cancel (h : t.Prompt) (hc : t.claim? k = some c)
    (hsuspended : c.stage.isSuspended = true) : t.lift k = (t.cancel k).evict c.id := by
  rcases Stage.waits_or_handed hsuspended with hwaits | hhanded
  · obtain ⟨d, hd, hm, -⟩ := h.exists_other_owner hc hwaits
    rw [cancel_eq_lift hc hwaits, lift_of_waits hc hwaits, evict_of_claim hd]
    rw [hm]
    exact h.sound.seated c (mem_of_claim? hc).1
  · rw [cancel_of_handed h.sound hc hhanded, lift_of_owns hc (by rw [hhanded]; rfl)]

/-- A table stays prompt when a claim is lifted that has not gone on yet. -/
theorem lift_suspended (h : t.Prompt) (hc : t.claim? k = some c)
    (hsuspended : c.stage.isSuspended = true) : (t.lift k).Prompt := by
  rw [h.lift_eq_evict_cancel hc hsuspended]
  exact (h.cancel hc hsuspended).evict c.id

/-- While one claim has been handed its mutex, every other that has not gone on waits. -/
theorem waits_of_handed (h : t.Prompt) (hc : t.claim? k = some c) (hhanded : c.stage = .handed)
    (hd : t.claim? a = some d) (hsuspended : d.stage.isSuspended = true) (hne : a ≠ k) :
    d.stage.waits = true := by
  obtain ⟨hcmem, hck⟩ := mem_of_claim? hc
  obtain ⟨hdmem, hda⟩ := mem_of_claim? hd
  refine (Stage.waits_or_handed hsuspended).resolve_right fun hstage => hne ?_
  exact hda.symm.trans ((h.single d hdmem c hcmem hstage hhanded).trans hck)

/-- A claim that goes on holds its mutex, and nobody has been handed one any more. -/
theorem resume (h : t.Prompt) (hc : t.claim? k = some c) (hhanded : c.stage = .handed) :
    (t.resume k).Prompt := by
  obtain ⟨hcmem, hck⟩ := mem_of_claim? hc
  have hs : (t.resume k).Sound := (resume_drifts t k).sound h.sound
  have heq := (resume_of_handed hc hhanded).1
  refine ⟨hs, ?_, ?_, ?_, ?_⟩ <;> rw [heq]
  · exact h.attended
  · intro d' hd'
    obtain ⟨d, hd, rfl⟩ := mem_setStage.mp hd'
    exact placed_moved (h.placed d hd) rfl
  · intro e' he'
    obtain ⟨e, he, rfl⟩ := mem_setStage.mp he'
    obtain ⟨d, hd, hm, howns⟩ := h.owned e he
    refine ⟨d.moved k .held, mem_setStage.mpr ⟨d, hd, rfl⟩, ?_, owns_moved howns rfl⟩
    rw [Claim.moved_mutex, Claim.moved_mutex, hm]
  · intro x' hx' y' hy' hxstage _
    obtain ⟨x, hx, rfl⟩ := mem_setStage.mp hx'
    by_cases hxk : x.ticket = k
    · rw [Claim.moved_of_ticket hxk] at hxstage
      cases hxstage
    · rw [Claim.moved_of_ne hxk] at hxstage
      exact absurd ((h.single x hx c hcmem hxstage hhanded).trans hck) hxk

/-- Numbers may be passed over. -/
theorem pass (h : t.Prompt) (n : Nat) : ({ t with fresh := t.fresh + n } : LockTable).Prompt :=
  ⟨h.sound.passed n, h.attended, h.placed, h.owned, h.single⟩

end Prompt

theorem fresh_le_acquire (t : LockTable) (now : Nat) (id : String) (patience : Duration) :
    t.fresh ≤ (t.acquire now id patience).2.fresh := by
  have harrive : t.fresh ≤ (t.arrive id patience).2.fresh := by
    rw [arrive_fresh]
    exact Nat.le_add_right _ _
  have hask : ∀ (u : LockTable) (k : Nat), (u.ask now k).fresh = u.fresh := by
    intro u k
    unfold ask
    split <;> rfl
  exact Nat.le_trans harrive (Nat.le_of_eq (hask _ _).symm)

@[simp] theorem lift_fresh : (t.lift k).fresh = t.fresh := by
  unfold lift
  split
  next c _ =>
    split
    · rw [evict_fresh, handOn_eq]
      split <;> rfl
    · rfl
  next => rfl

/-! ## Two claims go -/

/-- **A claim that waits may go before or after any other.** -/
theorem lift_comm (h : t.Prompt) {ca ck : Claim} (ha : t.claim? a = some ca)
    (hwaits : ca.stage.waits = true) (hk : t.claim? k = some ck) (hne : a ≠ k) :
    (t.lift k).lift a = (t.lift a).lift k := by
  obtain ⟨hamem, hat⟩ := mem_of_claim? ha
  have hka : (t.without a).claim? k = some ck := (claim?_without_ne hne.symm).trans hk
  have hak : (t.without k).claim? a = some ca := (claim?_without_ne hne).trans ha
  rw [lift_of_waits ha hwaits]
  cases howns : ck.stage.owns with
  | false =>
    have hkwaits : ck.stage.waits = true := by
      rcases h.placed ck (mem_of_claim? hk).1 with hown | hwait
      · rw [howns] at hown
        cases hown
      · exact hwait
    rw [lift_of_waits hk hkwaits, lift_of_waits hka hkwaits, lift_of_waits hak hwaits, without_comm]
  | true =>
    have hp := h.without ha hwaits
    cases hnext : (t.without k).nextInLine? ck.mutex with
    | none =>
      have hnext' : ((t.without a).without k).nextInLine? ck.mutex = none := by
        rw [without_comm, nextInLine?_without (by rw [hnext]; exact nofun), hnext]
      have hleft : (t.lift k).claim? a = some ca := by
        rw [h.lift_of_none hk howns hnext]
        exact hak
      rw [lift_of_waits hleft hwaits, h.lift_of_none hk howns hnext, hp.lift_of_none hka howns hnext',
        without_comm]
      rfl
    | some d =>
      by_cases hda : d.ticket = a
      · -- The one that waits is next in line: it is handed the mutex, and hands it on in its turn.
        obtain ⟨hd, hm, -⟩ := mem_of_nextInLine? hnext
        obtain rfl := h.sound.eq_of_ticket (mem_without.mp hd).1 hamem (hda.trans hat.symm)
        have hleft : (t.lift k).claim? a = some { d with stage := .handed } := by
          rw [h.lift_of_some hk howns hnext, hand, claim?_setStage, hak, Option.map_some,
            Claim.moved_of_ticket rfl]
        have hid : d.id = ck.id := h.sound.id_eq_of_mutex hamem (mem_of_claim? hk).1 hm
        rw [lift_of_owns hleft rfl, h.lift_of_some hk howns hnext, lift_of_owns hka howns, hand, hda,
          setStage_without_self, without_comm, hid, hm]
      · have hnext' : ((t.without a).without k).nextInLine? ck.mutex = some d := by
          rw [without_comm, nextInLine?_without, hnext]
          intro d' hd'
          obtain rfl := Option.some.inj (hnext.symm.trans hd')
          exact hda
        have hleft : (t.lift k).claim? a = some ca := by
          rw [h.lift_of_some hk howns hnext, hand, claim?_setStage, hak, Option.map_some,
            Claim.moved_of_ne fun heq => hda (heq.symm.trans hat)]
        rw [lift_of_waits hleft hwaits, h.lift_of_some hk howns hnext,
          hp.lift_of_some hka howns hnext', hand, setStage_without, without_comm]
        rfl

/-! ## Acquiring a lock -/

/-- What it comes to to acquire a lock. -/
theorem acquire_eq (hs : t.Sound) (now : Nat) (id : String) (patience : Duration) :
    t.acquire now id patience =
      let (k, u) := t.arrive id patience
      (k, { u with claims := t.claims ++ [⟨k, id, (t.mutexFor id).1, patience,
        if u.isFree (t.mutexFor id).1 then .held else .waiting (now + patience.milliseconds)⟩] }) := by
  have hc : (t.arrive id patience).2.claim? (t.arrive id patience).1 =
      some ⟨(t.arrive id patience).1, id, (t.mutexFor id).1, patience, .arrived⟩ :=
    claim?_arrive hs
  have hold : ∀ stage, t.claims.map (Claim.moved (t.arrive id patience).1 stage) = t.claims := by
    intro stage
    refine (List.map_congr_left ?_).trans (List.map_id _)
    intro c hc
    have hlt := Nat.lt_of_lt_of_le (hs.given c hc) (fresh_le_arrive t id patience)
    exact Claim.moved_of_ne (Nat.ne_of_lt hlt)
  simp only [acquire, ask, hc, setStage]
  rw [arrive_claims, List.map_append, hold]
  simp only [List.map_cons, List.map_nil, Claim.moved, ↓reduceIte]

/-- Whoever acquires a lock that nobody wants holds it at once. -/
theorem acquire_of_unwanted (hs : t.Sound) (hnone : ∀ c ∈ t.claims, c.id ≠ id) (now : Nat)
    (patience : Duration) :
    t.acquire now id patience = (t.fresh + 1, { (t.mutexFor id).2 with
      claims := t.claims ++ [⟨t.fresh + 1, id, (t.mutexFor id).1, patience, .held⟩]
      fresh := t.fresh + 2 }) := by
  obtain ⟨hfetched, hclaims, -, hseat⟩ := hs.mutexFor id
  have hfree : (t.arrive id patience).2.isFree (t.mutexFor id).1 = true := by
    rw [isFree_iff, arrive_claims]
    intro c hc hm
    rcases List.mem_append.mp hc with hold | hlast
    · exact absurd (hfetched.id_eq_of_lookup hseat (hclaims ▸ hold) hm) (hnone c hold)
    · rw [List.mem_singleton.mp hlast]
      rfl
  rw [acquire_eq hs]
  simp only [arrive, mutexFor_fresh] at hfree ⊢
  rw [if_pos hfree]

/-- Whoever acquires a lock that somebody wants waits. -/
theorem Prompt.acquire_of_wanted (h : t.Prompt) (hc : c ∈ t.claims) (hid : c.id = id) (now : Nat)
    (patience : Duration) :
    t.acquire now id patience = (t.fresh + 1, { t with
      claims := t.claims ++
        [⟨t.fresh + 1, id, c.mutex, patience, .waiting (now + patience.milliseconds)⟩]
      fresh := t.fresh + 2 }) := by
  have hm : t.mutexes.lookup id = some c.mutex := hid ▸ h.sound.seated c hc
  have htaken : (t.arrive id patience).2.isFree c.mutex = false := by
    obtain ⟨d, hd, hdm, howns⟩ := h.owned c hc
    refine Bool.eq_false_iff.mpr fun hfree => ?_
    rw [isFree_iff, arrive_claims] at hfree
    rw [hfree d (List.mem_append_left _ hd) hdm] at howns
    cases howns
  rw [acquire_eq h.sound]
  simp only [arrive, mutexFor, hm] at htaken ⊢
  simp only [htaken, Bool.false_eq_true, ↓reduceIte]

/-- Without the claim that came last. -/
theorem filter_concat (hs : t.Sound) (new : Claim) (hnew : t.fresh ≤ new.ticket) :
    (t.claims ++ [new]).filter (·.ticket ≠ new.ticket) = t.claims := by
  have hold : t.claims.filter (·.ticket ≠ new.ticket) = t.claims := by
    rw [List.filter_eq_self]
    intro c hc
    have hlt := hs.given c hc
    exact decide_eq_true (by omega)
  have hlast : [new].filter (·.ticket ≠ new.ticket) = [] := by simp
  rw [List.filter_append, hold, hlast, List.append_nil]

namespace Prompt

/-- A table stays prompt when a claim comes to its end that holds a mutex which nobody wants, or waits
for one that somebody has. -/
theorem concat {u : LockTable} {new : Claim} (h : t.Prompt) (hu : u.Sound)
    (hlookbacks : u.lookbacks = t.lookbacks) (hclaims : u.claims = t.claims ++ [new])
    (hplaced : new.stage = .held ∨
      new.stage.waits = true ∧ ∃ c ∈ t.claims, c.mutex = new.mutex) : u.Prompt := by
  have hquiet : new.stage ≠ .handed := by
    rcases hplaced with hheld | ⟨hwaits, -⟩ <;> intro hstage
    · cases hheld.symm.trans hstage
    · rw [hstage] at hwaits
      cases hwaits
  have hold : ∀ c ∈ u.claims, c.stage = .handed → c ∈ t.claims := by
    intro c hc hstage
    rw [hclaims] at hc
    rcases List.mem_append.mp hc with hold | hlast
    · exact hold
    · rw [List.mem_singleton.mp hlast] at hstage
      exact absurd hstage hquiet
  have howned : ∀ c ∈ t.claims, ∃ d ∈ u.claims, d.mutex = c.mutex ∧ d.stage.owns = true := by
    intro c hc
    obtain ⟨d, hd, hm, howns⟩ := h.owned c hc
    rw [hclaims]
    exact ⟨d, List.mem_append_left _ hd, hm, howns⟩
  refine ⟨hu, hlookbacks.trans h.attended, ?_, ?_, ?_⟩
  · intro c hc
    rw [hclaims] at hc
    rcases List.mem_append.mp hc with hold | hlast
    · exact h.placed c hold
    · rw [List.mem_singleton.mp hlast]
      exact hplaced.imp (fun hheld => by rw [hheld]; rfl) And.left
  · intro c hc
    rw [hclaims] at hc
    rcases List.mem_append.mp hc with hold | hlast
    · exact howned c hold
    · rw [List.mem_singleton.mp hlast]
      rcases hplaced with hheld | ⟨-, d, hd, hm⟩
      · refine ⟨new, ?_, rfl, by rw [hheld]; rfl⟩
        rw [hclaims]
        exact List.mem_append_right _ List.mem_cons_self
      · rw [← hm]
        exact howned d hd
  · intro c hc d hd hcstage hdstage
    exact h.single c (hold c hc hcstage) d (hold d hd hdstage) hcstage hdstage

theorem acquire (h : t.Prompt) (now : Nat) (id : String) (patience : Duration) :
    (t.acquire now id patience).2.Prompt := by
  have hsound : (t.acquire now id patience).2.Sound :=
    (acquire_drifts h.sound now id patience).sound (h.sound.arrive id patience)
  by_cases hwanted : ∃ c ∈ t.claims, c.id = id
  · obtain ⟨c, hc, hid⟩ := hwanted
    rw [h.acquire_of_wanted hc hid] at hsound ⊢
    exact h.concat hsound rfl rfl (Or.inr ⟨rfl, c, hc, rfl⟩)
  · have hnone : ∀ c ∈ t.claims, c.id ≠ id := fun c hc hid => hwanted ⟨c, hc, hid⟩
    rw [acquire_of_unwanted h.sound hnone] at hsound ⊢
    exact h.concat hsound (h.sound.mutexFor id).2.2.1 rfl (Or.inl rfl)

/-- One who acquires a lock that nobody wants holds it, and takes its mutex out if he lets go of it at
once. -/
theorem release_acquire (h : t.Prompt) (hnone : ∀ c ∈ t.claims, c.id ≠ id) (now : Nat)
    (patience : Duration) :
    (t.acquire now id patience).2.holds (t.acquire now id patience).1 = true ∧
      (t.acquire now id patience).2.release (t.acquire now id patience).1 =
        { t.evict id with fresh := t.fresh + 2 } := by
  have hu := h.acquire now id patience
  have hacquire := acquire_of_unwanted h.sound hnone now patience
  obtain ⟨hfetched, hclaims, -, hseat⟩ := h.sound.mutexFor id
  have hc : (t.acquire now id patience).2.claim? (t.acquire now id patience).1 =
      some ⟨t.fresh + 1, id, (t.mutexFor id).1, patience, .held⟩ := by
    rw [hu.sound.claim?_eq_some, hacquire]
    exact ⟨List.mem_append_right _ List.mem_cons_self, rfl⟩
  have hgone : (t.acquire now id patience).2.without (t.acquire now id patience).1 =
      { (t.mutexFor id).2 with fresh := t.fresh + 2 } := by
    rw [hacquire]
    simp only [LockTable.without]
    rw [filter_concat h.sound ⟨t.fresh + 1, id, (t.mutexFor id).1, patience, .held⟩ (Nat.le_succ _),
      hclaims]
  have hline : ((t.acquire now id patience).2.without (t.acquire now id patience).1).nextInLine?
      (t.mutexFor id).1 = none := by
    rw [hgone]
    refine List.find?_eq_none.mpr fun c hc hwaits => ?_
    have hid := hfetched.id_eq_of_lookup hseat hc (waitsFor_iff.mp hwaits).1
    exact hnone c (hclaims ▸ hc) hid
  have hmutexes : (t.mutexFor id).2.mutexes.filter (·.1 ≠ id) = t.mutexes.filter (·.1 ≠ id) := by
    unfold mutexFor
    split
    · rfl
    · simp
  refine ⟨by simp only [holds, hc, decide_true], ?_⟩
  rw [release_eq_lift hu.sound hu.attended hc rfl, hu.lift_of_none hc rfl hline, hgone, hacquire,
    evict_of_unwanted h.sound hnone]
  simp only [hmutexes, hclaims, (h.sound.mutexFor id).2.2.1]

/-- The claim of one who has to wait, and the table without it. -/
theorem lift_acquire (h : t.Prompt) (hc : c ∈ t.claims) (hid : c.id = id) (now : Nat)
    (patience : Duration) :
    (t.acquire now id patience).2.claim? (t.fresh + 1) =
        some ⟨t.fresh + 1, id, c.mutex, patience, .waiting (now + patience.milliseconds)⟩ ∧
      (t.acquire now id patience).2.lift (t.fresh + 1) = { t with fresh := t.fresh + 2 } := by
  have hacquire := h.acquire_of_wanted hc hid now patience
  have hclaim : (t.acquire now id patience).2.claim? (t.fresh + 1) =
      some ⟨t.fresh + 1, id, c.mutex, patience, .waiting (now + patience.milliseconds)⟩ := by
    rw [(h.acquire now id patience).sound.claim?_eq_some, hacquire]
    exact ⟨List.mem_append_right _ List.mem_cons_self, rfl⟩
  refine ⟨hclaim, ?_⟩
  rw [lift_of_waits hclaim rfl, hacquire]
  simp only [LockTable.without]
  rw [filter_concat h.sound
    ⟨t.fresh + 1, id, c.mutex, patience, .waiting (now + patience.milliseconds)⟩ (Nat.le_succ _)]

/-- A resource that is wanted is wanted still when a claim goes that waits for it. -/
theorem exists_claim_without (h : t.Prompt) (ha : t.claim? a = some c)
    (hwaits : c.stage.waits = true) (hd : d ∈ t.claims) :
    ∃ e ∈ (t.without a).claims, e.id = d.id ∧ e.mutex = d.mutex := by
  by_cases hda : d.ticket = a
  · obtain ⟨hcmem, hca⟩ := mem_of_claim? ha
    obtain rfl := h.sound.eq_of_ticket hd hcmem (hda.trans hca.symm)
    obtain ⟨e, he, hm, -⟩ := h.exists_other_owner ha hwaits
    exact ⟨e, he, h.sound.id_eq_of_mutex (mem_without.mp he).1 hd hm, hm⟩
  · exact ⟨d, mem_without.mpr ⟨hd, hda⟩, rfl, rfl⟩

/-- It does not matter to one who acquires a lock whether a claim that waits is there. -/
theorem acquire_lift (h : t.Prompt) (hc : t.claim? a = some c) (hwaits : c.stage.waits = true)
    (now : Nat) (id : String) (patience : Duration) :
    (t.lift a).acquire now id patience =
      ((t.acquire now id patience).1, (t.acquire now id patience).2.lift a) := by
  have hp := h.without hc hwaits
  obtain ⟨hcmem, hca⟩ := mem_of_claim? hc
  have hlt : a < t.fresh := hca ▸ h.sound.given c hcmem
  have hstays : (t.acquire now id patience).2.claim? a = some c := by
    rw [(h.acquire now id patience).sound.claim?_eq_some]
    refine ⟨?_, hca⟩
    rw [acquire_eq h.sound]
    exact List.mem_append_left _ hcmem
  rw [lift_of_waits hc hwaits, lift_of_waits hstays hwaits]
  have hlast : ∀ new : Claim, t.fresh ≤ new.ticket →
      (t.claims ++ [new]).filter (·.ticket ≠ a) = t.claims.filter (·.ticket ≠ a) ++ [new] := by
    intro new hnew
    have hne : new.ticket ≠ a := by omega
    have hkeep : [new].filter (·.ticket ≠ a) = [new] := by simp [hne]
    rw [List.filter_append, hkeep]
  by_cases hwanted : ∃ d ∈ t.claims, d.id = id
  · obtain ⟨d, hd, hid⟩ := hwanted
    obtain ⟨e, he, heid, hem⟩ := h.exists_claim_without hc hwaits hd
    rw [h.acquire_of_wanted hd hid, hp.acquire_of_wanted he (heid.trans hid), hem]
    simp only [LockTable.without]
    rw [hlast _ (Nat.le_succ _)]
  · have hnone : ∀ d ∈ t.claims, d.id ≠ id := fun d hd hid => hwanted ⟨d, hd, hid⟩
    have hnone' : ∀ d ∈ (t.without a).claims, d.id ≠ id := fun d hd => hnone d (mem_without.mp hd).1
    have hfetch : (t.without a).mutexFor id =
        ((t.mutexFor id).1, (t.mutexFor id).2.without a) := by
      simp only [LockTable.mutexFor, LockTable.without]
      split <;> rfl
    rw [acquire_of_unwanted h.sound hnone, acquire_of_unwanted hp.sound hnone', hfetch]
    simp only [LockTable.without]
    rw [hlast _ (Nat.le_succ _)]

end Prompt

/-! ## What becomes of a claim while others go -/

/-- It makes no difference to the claims whether one is lifted or dropped. -/
theorem Prompt.cancel_claims (h : t.Prompt) (hk : t.claim? k = some d)
    (hsuspended : d.stage.isSuspended = true) :
    (t.cancel k).claims = (t.lift k).claims ∧ (t.cancel k).fresh = t.fresh := by
  have hlift := h.lift_eq_evict_cancel hk hsuspended
  have hfresh : (t.lift k).fresh = (t.cancel k).fresh := by rw [hlift, evict_fresh]
  exact ⟨by rw [hlift, evict_claims], hfresh.symm.trans lift_fresh⟩

/-- When a claim goes, no other moves but the one that is handed the mutex. -/
theorem claim?_lift (hk : t.claim? k = some d) (a : Nat) :
    (t.lift k).claim? a = (t.without k).claim? a ∨
      ∃ w, (t.lift k).claim? a = ((t.without k).claim? a).map (Claim.moved w .handed) := by
  simp only [lift, hk]
  split
  · show (((t.without k).handOn d.mutex).evict d.id).claims.find? _ = _ ∨
      ∃ w, (((t.without k).handOn d.mutex).evict d.id).claims.find? _ = _
    rw [evict_claims, handOn_eq]
    split
    next w _ => exact Or.inr ⟨w.ticket, claim?_setStage⟩
    next => exact Or.inl rfl
  · exact Or.inl rfl

theorem claim?_lift_self (hk : t.claim? k = some d) : (t.lift k).claim? k = none := by
  have hgone : (t.without k).claim? k = none :=
    List.find?_eq_none.mpr fun c hc => by
      simpa only [decide_eq_true_eq] using (mem_without.mp hc).2
  rcases claim?_lift hk k with heq | ⟨w, heq⟩ <;> rw [heq, hgone]
  rfl

/-- One who acquires a lock moves no claim that is there, and brings none back. -/
theorem claim?_acquire_of_lt (hs : t.Sound) (hlt : a < t.fresh) (now : Nat) (id : String)
    (patience : Duration) : (t.acquire now id patience).2.claim? a = t.claim? a := by
  have hnew : (t.arrive id patience).1 ≠ a := by
    have hle := fresh_le_arrive t id patience
    omega
  rw [acquire_eq hs]
  show (t.claims ++ [_]).find? _ = _
  rw [List.find?_append]
  simp only [List.find?_cons, hnew, decide_false, List.find?_nil, Option.or_none]
  rfl

end InletRegistry.LockTable
