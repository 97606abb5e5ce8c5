import InletRegistry.Proofs.Locks.Eviction
import InletRegistry.Proofs.Locks.Prompt
import Mathlib.Data.List.Find

/-!
# What is left behind

A claim that is dropped when it has been handed its mutex does not look back, and so a mutex may stay in
the table although nobody wants it. It stays there until somebody has wanted it again and looks back. So
two tables may have the same claims and differ in what was left behind: one **retains** the other if it
holds every mutex that the other holds, and perhaps some that nobody wants.

Nobody can tell such tables apart. A mutex that was left behind is as good as a new one to whoever comes
for it, and its number is not seen. So every operation of a table at rest does the same to both, and what
the first retained it retains still.

A claim may be lifted before or after another is dropped, and it may be the one or the other that leaves
a mutex behind; but without the one that is lifted nothing less is left behind (`cancel_lift`).
-/

namespace InletRegistry

open Locks

namespace Locks.Claim

variable {c d : Claim} {k : Nat} {stage : Stage}

/-- A claim without the number of its mutex. -/
def blank (c : Claim) : Claim := { c with mutex := 0 }

theorem ticket_eq_of_blank (h : c.blank = d.blank) : c.ticket = d.ticket := by
  show c.blank.ticket = d.blank.ticket
  rw [h]

theorem id_eq_of_blank (h : c.blank = d.blank) : c.id = d.id := by
  show c.blank.id = d.blank.id
  rw [h]

theorem stage_eq_of_blank (h : c.blank = d.blank) : c.stage = d.stage := by
  show c.blank.stage = d.blank.stage
  rw [h]

theorem blank_moved : (c.moved k stage).blank = c.blank.moved k stage := by
  by_cases hck : c.ticket = k
  · rw [moved_of_ticket hck, moved_of_ticket (c := c.blank) hck]
    rfl
  · rw [moved_of_ne hck, moved_of_ne (c := c.blank) hck]

end Locks.Claim

namespace LockTable

open Lookup Time

variable {t u v : LockTable} {a k m n now : Nat} {i id : String} {patience : Duration} {c d : Claim}
  {stage : Stage} {p : Claim → Bool}

/-- The claims, whatever the numbers of their mutexes. -/
def blanks (t : LockTable) : List Claim := t.claims.map Claim.blank

/-- That two tables have the same claims, and the first holds every mutex that the second holds. -/
structure Retains (u t : LockTable) : Prop where
  claims : u.blanks = t.blanks
  lookbacks : u.lookbacks = t.lookbacks
  fresh : u.fresh = t.fresh
  entries : ∀ id, (t.mutexes.lookup id).isSome → (u.mutexes.lookup id).isSome

namespace Retains

theorem refl (t : LockTable) : t.Retains t := ⟨rfl, rfl, rfl, fun _ h => h⟩

theorem trans (h : v.Retains u) (g : u.Retains t) : v.Retains t :=
  ⟨h.claims.trans g.claims, h.lookbacks.trans g.lookbacks, h.fresh.trans g.fresh,
    fun id hid => h.entries id (g.entries id hid)⟩

/-! ## The same claims -/

theorem find?_blanks (hp : ∀ c : Claim, p c.blank = p c) (t : LockTable) :
    t.blanks.find? p = (t.claims.find? p).map Claim.blank := by
  have hcomp : p ∘ Claim.blank = p := funext hp
  rw [blanks, List.find?_map, hcomp]

/-- What is found by anything but the number of a mutex is found in both. -/
theorem find? (h : u.Retains t) (hp : ∀ c : Claim, p c.blank = p c) :
    (u.claims.find? p).map Claim.blank = (t.claims.find? p).map Claim.blank := by
  rw [← find?_blanks hp, ← find?_blanks hp, h.claims]

theorem exists_find? (h : u.Retains t) (hp : ∀ c : Claim, p c.blank = p c)
    (hc : t.claims.find? p = some c) : ∃ d, u.claims.find? p = some d ∧ d.blank = c.blank := by
  have hfound := h.find? hp
  rw [hc] at hfound
  exact Option.map_eq_some_iff.mp hfound

theorem find?_eq_none (h : u.Retains t) (hp : ∀ c : Claim, p c.blank = p c)
    (hnone : t.claims.find? p = none) : u.claims.find? p = none := by
  have hfound := h.find? hp
  rw [hnone] at hfound
  exact Option.map_eq_none_iff.mp hfound

theorem claim? (h : u.Retains t) (hc : t.claim? k = some c) :
    ∃ d, u.claim? k = some d ∧ d.blank = c.blank := h.exists_find? (fun _ => rfl) hc

theorem claim?_eq_none (h : u.Retains t) (hnone : t.claim? k = none) : u.claim? k = none :=
  h.find?_eq_none (fun _ => rfl) hnone

theorem handed? (h : u.Retains t) (hc : t.handed? = some c) :
    ∃ d, u.handed? = some d ∧ d.ticket = c.ticket := by
  obtain ⟨d, hd, hblank⟩ := h.exists_find? (fun _ => rfl) hc
  exact ⟨d, hd, Claim.ticket_eq_of_blank hblank⟩

theorem handed?_eq_none (h : u.Retains t) (hnone : t.handed? = none) : u.handed? = none :=
  h.find?_eq_none (fun _ => rfl) hnone

theorem mem (h : u.Retains t) (hc : c ∈ t.claims) : ∃ d ∈ u.claims, d.blank = c.blank := by
  have hmem : c.blank ∈ u.blanks := by
    rw [h.claims]
    exact List.mem_map_of_mem hc
  exact List.mem_map.mp hmem

/-- What nobody wants in the second table nobody wants in the first. -/
theorem unwanted (h : u.Retains t) (hnone : ∀ c ∈ t.claims, c.id ≠ id) : ∀ c ∈ u.claims, c.id ≠ id := by
  intro c hc hid
  have hmem : c.blank ∈ t.blanks := by
    rw [← h.claims]
    exact List.mem_map_of_mem hc
  obtain ⟨d, hd, hblank⟩ := List.mem_map.mp hmem
  exact hnone d hd ((Claim.id_eq_of_blank hblank).trans hid)

/-- Only mutexes that nobody wants are left behind. -/
theorem left_behind (h : u.Retains t) (ht : t.Sound) (hid : (u.mutexes.lookup id).isSome) :
    (t.mutexes.lookup id).isSome ∨ ∀ c ∈ u.claims, c.id ≠ id := by
  by_cases hwanted : ∃ c ∈ t.claims, c.id = id
  · obtain ⟨c, hc, rfl⟩ := hwanted
    exact Or.inl (by rw [ht.seated c hc]; rfl)
  · exact Or.inr (h.unwanted fun c hc hid => hwanted ⟨c, hc, hid⟩)

theorem size_le (h : u.Retains t) (ht : t.Sound) : t.size ≤ u.size := by
  have hsub : t.mutexes.map (·.1) ⊆ u.mutexes.map (·.1) := fun id hid =>
    isSome_lookup_iff.mp (h.entries id (isSome_lookup_iff.mpr hid))
  have hle := (List.subperm_of_subset ht.resources hsub).length_le
  rwa [List.length_map, List.length_map] at hle

/-- A sound table holds the mutexes that are wanted, so it is enough to look at the others. -/
theorem of_unwanted (hu : u.Sound) (hclaims : u.blanks = t.blanks)
    (hlookbacks : u.lookbacks = t.lookbacks) (hfresh : u.fresh = t.fresh)
    (hentries : ∀ id, (∀ c ∈ t.claims, c.id ≠ id) → (t.mutexes.lookup id).isSome →
      (u.mutexes.lookup id).isSome) : u.Retains t := by
  refine ⟨hclaims, hlookbacks, hfresh, fun id hid => ?_⟩
  by_cases hwanted : ∃ c ∈ t.claims, c.id = id
  · obtain ⟨c, hc, rfl⟩ := hwanted
    have hmem : c.blank ∈ u.blanks := by
      rw [hclaims]
      exact List.mem_map_of_mem hc
    obtain ⟨d, hd, hblank⟩ := List.mem_map.mp hmem
    rw [← Claim.id_eq_of_blank hblank, hu.seated d hd]
    rfl
  · exact hentries id (fun c hc hid => hwanted ⟨c, hc, hid⟩) hid

end Retains

/-! ## The steps -/

theorem blanks_without (t : LockTable) (k : Nat) :
    (t.without k).blanks = t.blanks.filter (·.ticket ≠ k) := by
  rw [blanks, without, blanks, List.filter_map]
  rfl

theorem blanks_setStage (t : LockTable) (k : Nat) (stage : Stage) :
    (t.setStage k stage).blanks = t.blanks.map (Claim.moved k stage) := by
  simp only [blanks, setStage, List.map_map, Function.comp_def, Claim.blank_moved]

/-- Whether a claim waits for the lock of a resource. -/
def waitsAt (id : String) (c : Claim) : Bool := c.id = id && c.stage.waits

/-- The line for a mutex is the line for its resource. -/
theorem Sound.nextInLine?_eq (hs : t.Sound) (hm : t.mutexes.lookup id = some m) :
    t.nextInLine? m = t.claims.find? (waitsAt id) := by
  refine List.find?_congr fun c hc => ?_
  have hsame : c.mutex = m ↔ c.id = id := by
    refine ⟨hs.id_eq_of_lookup hm hc, ?_⟩
    rintro rfl
    exact Option.some.inj ((hs.seated c hc).symm.trans hm)
  simp only [waitsFor, waitsAt, hsame]

namespace Retains

theorem without (h : u.Retains t) (k : Nat) : (u.without k).Retains (t.without k) :=
  ⟨by rw [blanks_without, blanks_without, h.claims], h.lookbacks, h.fresh, h.entries⟩

theorem setStage (h : u.Retains t) (k : Nat) (stage : Stage) :
    (u.setStage k stage).Retains (t.setStage k stage) :=
  ⟨by rw [blanks_setStage, blanks_setStage, h.claims], h.lookbacks, h.fresh, h.entries⟩

theorem pass (h : u.Retains t) (n : Nat) :
    ({ u with fresh := u.fresh + n } : LockTable).Retains { t with fresh := t.fresh + n } :=
  ⟨h.claims, h.lookbacks, congrArg (· + n) h.fresh, h.entries⟩

/-- A mutex goes to the same claim in both. -/
theorem handOn (h : u.Retains t) (hu : u.Sound) (ht : t.Sound) (hm : u.mutexes.lookup id = some m)
    (hn : t.mutexes.lookup id = some n) : (u.handOn m).Retains (t.handOn n) := by
  have hline : u.nextInLine? m = u.claims.find? (waitsAt id) := hu.nextInLine?_eq hm
  have hline' : t.nextInLine? n = t.claims.find? (waitsAt id) := ht.nextInLine?_eq hn
  rw [handOn_eq, handOn_eq, hline, hline']
  cases hnext : t.claims.find? (waitsAt id) with
  | none =>
    rw [h.find?_eq_none (fun _ => rfl) hnext]
    exact h
  | some c =>
    obtain ⟨d, hd, hblank⟩ := h.exists_find? (fun _ => rfl) hnext
    have hticket : d.ticket = c.ticket := Claim.ticket_eq_of_blank hblank
    rw [hd]
    show (u.setStage d.ticket .handed).Retains (t.setStage c.ticket .handed)
    rw [hticket]
    exact h.setStage c.ticket .handed

end Retains

/-- To take an idle mutex out leaves the claims as they are. -/
theorem retains_evict (t : LockTable) (id : String) : t.Retains (t.evict id) := by
  refine ⟨by simp only [blanks, evict_claims], evict_lookbacks.symm, evict_fresh.symm, fun i hi => ?_⟩
  by_cases heq : i = id
  · rcases evict_mutexes t id with hsame | ⟨_, _, _, hout⟩
    · rwa [hsame] at hi
    · rw [hout, heq, lookup_filter_self] at hi
      cases hi
  · rwa [lookup_evict_ne heq] at hi

theorem Retains.evict (h : u.Retains t) (hu : u.Sound) (ht : t.Sound) (id : String) :
    (u.evict id).Retains (t.evict id) := by
  have hclaims : (u.evict id).blanks = (t.evict id).blanks := by
    simp only [blanks, evict_claims]
    exact h.claims
  refine of_unwanted (hu.evict id) hclaims (by simp [h.lookbacks]) (by simp [h.fresh]) ?_
  intro i hnone hi
  have hne : i ≠ id := by
    rintro rfl
    obtain ⟨m, hm⟩ := Option.isSome_iff_exists.mp hi
    obtain ⟨c, hc, hid⟩ := exists_claim_of_lookup_evict ht hm
    rw [evict_claims] at hnone
    exact hnone c hc hid
  rw [lookup_evict_ne hne] at hi ⊢
  exact h.entries i hi

/-! ## The operations -/

namespace Retains

variable (h : u.Retains t) (hu : u.Prompt) (ht : t.Prompt)
include h hu ht

/-- An owner goes, and its mutex is handed on. -/
theorem handOn_without (hc : t.claim? k = some c) (hd : u.claim? k = some d)
    (hblank : d.blank = c.blank) : ((u.without k).handOn d.mutex).Retains
      ((t.without k).handOn c.mutex) := by
  have hseat := hu.sound.seated d (mem_of_claim? hd).1
  rw [Claim.id_eq_of_blank hblank] at hseat
  exact (h.without k).handOn (hu.sound.without hd (hu.not_leaving hd))
    (ht.sound.without hc (ht.not_leaving hc)) hseat (ht.sound.seated c (mem_of_claim? hc).1)

theorem lift (k : Nat) : (u.lift k).Retains (t.lift k) := by
  cases hc : t.claim? k with
  | none =>
    simp only [LockTable.lift, hc, h.claim?_eq_none hc]
    exact h
  | some c =>
    obtain ⟨d, hd, hblank⟩ := h.claim? hc
    rcases ht.placed c (mem_of_claim? hc).1 with howns | hwaits
    · have howns' : d.stage.owns = true := Claim.stage_eq_of_blank hblank ▸ howns
      rw [lift_of_owns hc howns, lift_of_owns hd howns', Claim.id_eq_of_blank hblank]
      exact (h.handOn_without hu ht hc hd hblank).evict (hu.sound_handOn hd howns')
        (ht.sound_handOn hc howns) c.id
    · have hwaits' : d.stage.waits = true := Claim.stage_eq_of_blank hblank ▸ hwaits
      rw [lift_of_waits hc hwaits, lift_of_waits hd hwaits']
      exact h.without k

theorem cancel (hc : t.claim? k = some c) (hsuspended : c.stage.isSuspended = true) :
    (u.cancel k).Retains (t.cancel k) := by
  obtain ⟨d, hd, hblank⟩ := h.claim? hc
  have hstage := Claim.stage_eq_of_blank hblank
  rcases Stage.waits_or_handed hsuspended with hwaits | hhanded
  · rw [cancel_eq_lift hc hwaits, cancel_eq_lift hd (hstage ▸ hwaits)]
    exact h.lift hu ht k
  · rw [cancel_of_handed ht.sound hc hhanded, cancel_of_handed hu.sound hd (hstage.trans hhanded)]
    exact h.handOn_without hu ht hc hd hblank

theorem acquire (now : Nat) (id : String) (patience : Duration) :
    (u.acquire now id patience).2.Retains (t.acquire now id patience).2 := by
  by_cases hwanted : ∃ c ∈ t.claims, c.id = id
  · obtain ⟨c, hc, hid⟩ := hwanted
    obtain ⟨d, hd, hblank⟩ := h.mem hc
    rw [ht.acquire_of_wanted hc hid, hu.acquire_of_wanted hd ((Claim.id_eq_of_blank hblank).trans hid)]
    refine ⟨?_, h.lookbacks, congrArg (· + 2) h.fresh, h.entries⟩
    have hclaims : u.claims.map Claim.blank = t.claims.map Claim.blank := h.claims
    simp only [blanks, List.map_append, hclaims, h.fresh]
    rfl
  · have hnone : ∀ c ∈ t.claims, c.id ≠ id := fun c hc hid => hwanted ⟨c, hc, hid⟩
    have hsound := (hu.acquire now id patience).sound
    have hclaims : u.claims.map Claim.blank = t.claims.map Claim.blank := h.claims
    rw [acquire_of_unwanted hu.sound (h.unwanted hnone)] at hsound
    rw [acquire_of_unwanted ht.sound hnone, acquire_of_unwanted hu.sound (h.unwanted hnone)]
    refine of_unwanted hsound ?_ ?_ (congrArg (· + 2) h.fresh) ?_
    · simp only [blanks, List.map_append, hclaims, h.fresh]
      rfl
    · show (u.mutexFor id).2.lookbacks = (t.mutexFor id).2.lookbacks
      rw [(hu.sound.mutexFor id).2.2.1, (ht.sound.mutexFor id).2.2.1, h.lookbacks]
    · intro i hunwanted hi
      have hne : i ≠ id := fun heq =>
        hunwanted _ (List.mem_append_right _ List.mem_cons_self) heq.symm
      rw [lookup_mutexFor_ne hne] at hi ⊢
      exact h.entries i hi

end Retains

/-! ## One is lifted, another is dropped -/

/-- Whoever is suspended stays so when another claim goes. -/
theorem suspended_lift (ha : t.claim? a = some c) (hk : t.claim? k = some d) (hne : k ≠ a)
    (hsuspended : d.stage.isSuspended = true) :
    ∃ e, (t.lift a).claim? k = some e ∧ e.id = d.id ∧ e.stage.isSuspended = true := by
  have hstays : (t.without a).claim? k = some d := (claim?_without_ne hne).trans hk
  rcases claim?_lift ha k with heq | ⟨w, heq⟩ <;> rw [heq, hstays]
  · exact ⟨d, rfl, rfl, hsuspended⟩
  · refine ⟨d.moved w .handed, rfl, Claim.moved_id, ?_⟩
    unfold Claim.moved
    split
    · rfl
    · exact hsuspended

/-- Whoever is not next in line may go before or after a mutex is handed on. -/
theorem without_handOn (h : ∀ c, t.nextInLine? m = some c → c.ticket ≠ a) :
    (t.handOn m).without a = (t.without a).handOn m := by
  rw [handOn_eq, handOn_eq, nextInLine?_without h]
  cases t.nextInLine? m with
  | none => rfl
  | some c => exact setStage_without

theorem claim?_handOn_of_ne (h : ∀ c, t.nextInLine? m = some c → c.ticket ≠ a)
    (hd : t.claim? a = some d) : (t.handOn m).claim? a = some d := by
  rw [handOn_eq]
  cases hnext : t.nextInLine? m with
  | none => exact hd
  | some c =>
    have hda := (mem_of_claim? hd).2
    have hne : d.ticket ≠ c.ticket := fun heq => h c hnext (heq.symm.trans hda)
    simp only [hand, claim?_setStage, hd, Option.map_some, Claim.moved_of_ne hne]

/-- A claim that is dropped leaves nothing behind if another wants its mutex. -/
theorem Prompt.cancel_eq_lift_of_other (h : t.Prompt) (hk : t.claim? k = some c)
    (hhanded : c.stage = .handed) (ha : t.claim? a = some d) (hid : d.id = c.id)
    (hsuspended : d.stage.isSuspended = true) (hne : a ≠ k) : t.cancel k = t.lift k := by
  have hlift := h.lift_eq_evict_cancel hk (by rw [hhanded]; rfl)
  obtain ⟨e, he, heid, -⟩ := suspended_lift hk ha hne hsuspended
  have hemem : e ∈ (t.cancel k).claims := by
    have hmem := (mem_of_claim? he).1
    rwa [hlift, evict_claims] at hmem
  have hsound : (t.cancel k).Sound := by
    rw [cancel_of_handed h.sound hk hhanded]
    exact h.sound_handOn hk (by rw [hhanded]; rfl)
  have hseat := hsound.seated e hemem
  rw [heid, hid] at hseat
  rw [hlift, evict_of_claim hemem hseat]

/-- **One claim is lifted and another is dropped.** If the first is lifted before the second is dropped,
nothing less is left behind. -/
theorem cancel_lift (h : t.Prompt) {ca ck : Claim} (ha : t.claim? a = some ca)
    (hasuspended : ca.stage.isSuspended = true) (hk : t.claim? k = some ck)
    (hksuspended : ck.stage.isSuspended = true) (hne : a ≠ k) :
    ((t.lift a).cancel k).Retains ((t.cancel k).lift a) := by
  obtain ⟨hamem, hat⟩ := mem_of_claim? ha
  obtain ⟨hkmem, hkt⟩ := mem_of_claim? hk
  have hprompt : (t.lift a).Prompt := h.lift_suspended ha hasuspended
  obtain ⟨e, he, -, hesuspended⟩ := suspended_lift ha hk hne.symm hksuspended
  -- If the one that is dropped leaves its mutex to nobody but the other, it might as well be lifted.
  have hlifted : t.cancel k = t.lift k → (t.lift k).lift a = (t.lift a).lift k →
      ((t.lift a).cancel k).Retains ((t.cancel k).lift a) := by
    intro hcancel hcomm
    rw [hcancel, hcomm, hprompt.lift_eq_evict_cancel he hesuspended]
    exact retains_evict _ _
  rcases Stage.waits_or_handed hksuspended with hwaits | hhanded
  · exact hlifted (cancel_eq_lift hk hwaits) (lift_comm h hk hwaits ha hne.symm).symm
  · have hwaits : ca.stage.waits = true := h.waits_of_handed hk hhanded ha hasuspended hne
    by_cases hid : ca.id = ck.id
    · exact hlifted (h.cancel_eq_lift_of_other hk hhanded ha hid hasuspended hne)
        (lift_comm h ha hwaits hk hne)
    · have hline : ∀ c, (t.without k).nextInLine? ck.mutex = some c → c.ticket ≠ a := by
        intro c hc heq
        obtain ⟨hcmem, hm, -⟩ := mem_of_nextInLine? hc
        obtain rfl := h.sound.eq_of_ticket (mem_without.mp hcmem).1 hamem (heq.trans hat.symm)
        exact hid (h.sound.id_eq_of_mutex hamem hkmem hm)
      have hk' : (t.without a).claim? k = some ck := (claim?_without_ne hne.symm).trans hk
      have ha' : ((t.without k).handOn ck.mutex).claim? a = some ca :=
        claim?_handOn_of_ne hline ((claim?_without_ne hne).trans ha)
      rw [cancel_of_handed h.sound hk hhanded, lift_of_waits ha' hwaits, lift_of_waits ha hwaits,
        cancel_of_handed (h.without ha hwaits).sound hk' hhanded, without_handOn hline, without_comm]
      exact Retains.refl _

/-! ## Nothing left behind -/

/-- That every mutex in the table is wanted. -/
def Tidy (t : LockTable) : Prop := ∀ id, (t.mutexes.lookup id).isSome → ∃ c ∈ t.claims, c.id = id

theorem Retains.lookup_isSome (h : u.Retains t) (ht : t.Sound) (hu : u.Tidy) (id : String) :
    (u.mutexes.lookup id).isSome = (t.mutexes.lookup id).isSome := by
  refine Bool.eq_iff_iff.mpr ⟨fun hid => ?_, h.entries id⟩
  refine (h.left_behind ht hid).resolve_right fun hnone => ?_
  obtain ⟨c, hc, hcid⟩ := hu id hid
  exact hnone c hc hcid

theorem exists_claim_setStage (h : ∃ c ∈ t.claims, c.id = id) (k : Nat) (stage : Stage) :
    ∃ c ∈ (t.setStage k stage).claims, c.id = id := by
  obtain ⟨c, hc, rfl⟩ := h
  exact ⟨c.moved k stage, mem_setStage.mpr ⟨c, hc, rfl⟩, Claim.moved_id⟩

theorem exists_claim_handOn (h : ∃ c ∈ t.claims, c.id = id) (m : Nat) :
    ∃ c ∈ (t.handOn m).claims, c.id = id := by
  rw [handOn_eq]
  cases t.nextInLine? m with
  | none => exact h
  | some c => exact exists_claim_setStage h c.ticket .handed

theorem handOn_mutexes (t : LockTable) (m : Nat) : (t.handOn m).mutexes = t.mutexes := by
  rw [handOn_eq]
  split <;> rfl

/-- Where nothing was left behind, both tables are of the same size. -/
theorem Retains.size_eq (h : u.Retains t) (hs : u.Sound) (ht : t.Sound) (hu : u.Tidy) :
    u.size = t.size := by
  refine Nat.le_antisymm ?_ (h.size_le ht)
  have hback : t.Retains u := ⟨h.claims.symm, h.lookbacks.symm, h.fresh.symm, fun id hid => by
    rwa [← h.lookup_isSome ht hu id]⟩
  exact hback.size_le hs

namespace Tidy

theorem setStage (h : t.Tidy) (k : Nat) (stage : Stage) : (t.setStage k stage).Tidy :=
  fun id hid => exists_claim_setStage (h id hid) k stage

theorem evict (h : t.Tidy) (id : String) : (t.evict id).Tidy := by
  intro i hi
  rw [evict_claims]
  exact h i ((retains_evict t id).entries i hi)

/-- The mutex of a claim that waits is wanted still when the claim is lifted, and that of an owner is
taken out if it is not. -/
theorem lift (h : t.Tidy) (ht : t.Prompt) (k : Nat) : (t.lift k).Tidy := by
  cases hc : t.claim? k with
  | none =>
    simp only [LockTable.lift, hc]
    exact h
  | some c =>
    obtain ⟨hcmem, hck⟩ := mem_of_claim? hc
    rcases ht.placed c hcmem with howns | hwaits
    · rw [lift_of_owns hc howns]
      intro id hid
      rw [evict_claims]
      by_cases heq : id = c.id
      · subst heq
        obtain ⟨m, hm⟩ := Option.isSome_iff_exists.mp hid
        exact exists_claim_of_lookup_evict (ht.sound_handOn hc howns) hm
      · rw [lookup_evict_ne heq, handOn_mutexes] at hid
        obtain ⟨d, hd, rfl⟩ := h id hid
        refine exists_claim_handOn ⟨d, mem_without.mpr ⟨hd, fun hdk => heq ?_⟩, rfl⟩ c.mutex
        rw [ht.sound.eq_of_ticket hd hcmem (hdk.trans hck.symm)]
    · rw [lift_of_waits hc hwaits]
      intro id hid
      obtain ⟨d, hd, rfl⟩ := h id hid
      obtain ⟨e, he, heid, -⟩ := ht.exists_claim_without hc hwaits hd
      exact ⟨e, he, heid⟩

theorem acquire (h : t.Tidy) (ht : t.Prompt) (now : Nat) (id : String) (patience : Duration) :
    (t.acquire now id patience).2.Tidy := by
  intro i hi
  have hmutexes : (t.acquire now id patience).2.mutexes = (t.mutexFor id).2.mutexes := by
    rw [acquire_eq ht.sound]
    rfl
  rw [hmutexes] at hi
  rw [acquire_eq ht.sound]
  by_cases heq : i = id
  · exact ⟨_, List.mem_append_right _ List.mem_cons_self, heq.symm⟩
  · rw [lookup_mutexFor_ne heq] at hi
    obtain ⟨c, hc, hid⟩ := h i hi
    exact ⟨c, List.mem_append_left _ hc, hid⟩

end Tidy

end LockTable

end InletRegistry
