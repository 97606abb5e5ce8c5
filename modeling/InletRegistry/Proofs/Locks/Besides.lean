import InletRegistry.Proofs.Locks.Prompt

/-!
# The lock of one resource and all others

What is done with the lock of one resource is nothing to the locks of the others. `besides` is a table
without a resource: without its mutex, without the claims on it, and without those who have still to look
back at it; the numbers stay. Whatever befalls a claim on another resource commutes with it, and what
befalls a claim on the resource itself cannot be seen past it, but for the numbers drawn.

All of this holds of every sound table, also of one in which claims are in the middle of a step: a claim
refers to the mutex of its own resource, and no two resources share one.
-/

namespace InletRegistry.LockTable

open InletRegistry.Locks InletRegistry.Lookup InletRegistry.Time

variable {t : LockTable} {k m n now : Nat} {i id : String} {patience : Duration} {c d : Claim}
  {stage : Stage} {b : Bool}

/-- The table without the lock of a resource. -/
def besides (i : String) (t : LockTable) : LockTable :=
  { t with
    mutexes := t.mutexes.filter (·.1 ≠ i)
    claims := t.claims.filter (·.id ≠ i)
    lookbacks := t.lookbacks.filter (· ≠ i) }

/-- The table after a claim on a resource has departed and looked back. -/
def lookedAfter (id : String) (t : LockTable) : LockTable :=
  { t with lookbacks := (t.lookbacks ++ [id]).erase id }.evict id

/-! ## What is left when a claim goes -/

theorem Sound.handOn (hs : t.Sound) (hfree : t.isFree m = true) : (t.handOn m).Sound :=
  (handOn_drifts hs hfree).sound hs

/-- A mutex is free once the claim is gone whose own it was. -/
theorem isFree_without (hs : t.Sound) (hc : t.claim? k = some c) (howns : c.stage.owns = true) :
    (t.without k).isFree c.mutex = true := by
  obtain ⟨hcmem, hck⟩ := mem_of_claim? hc
  rw [isFree_iff]
  intro d hd hm
  obtain ⟨hdmem, hdk⟩ := mem_without.mp hd
  refine Bool.eq_false_iff.mpr fun hdown => ?_
  exact hdk ((hs.exclusive d hdmem c hcmem hm hdown howns).trans hck)

theorem lookBack_depart_eq (hc : t.claim? k = some c) (hstage : c.stage = .leaving true) :
    (t.depart k).lookBack c.id = (t.without k).lookedAfter c.id := by
  simp only [lookBack, depart, hc, hstage, ↓reduceIte, lookedAfter, without]

/-- A holder that lets go hands its mutex on, is gone, and has looked back. -/
theorem release_eq (hs : t.Sound) (hc : t.claim? k = some c) (hheld : c.stage = .held) :
    t.release k = ((t.without k).handOn c.mutex).lookedAfter c.id := by
  have howns : c.stage.owns = true := by rw [hheld]; rfl
  obtain ⟨hnext, -⟩ := release_drifts hs hc hheld
  obtain ⟨-, hleaving⟩ := letGo_handOn_drifts (b := true) hs hc howns (hs.next hnext)
  simp only [release, hc, hheld, ↓reduceIte]
  rw [← handOn_letGo_without]
  exact lookBack_depart_eq (c := { c with stage := .leaving true }) hleaving rfl

/-- A claim that gives up is gone, and has looked back. -/
theorem expire_of_waits (hc : t.claim? k = some c) (hwaits : c.stage.waits = true) :
    t.expire k = (t.without k).lookedAfter c.id := by
  simp only [expire, hc, hwaits, ↓reduceIte]
  have hwithout : (t.letGo k true).without k = t.without k := setStage_without_self
  rw [← hwithout]
  exact lookBack_depart_eq (c := { c with stage := .leaving true }) (claim?_letGo hc) rfl

theorem cancel_of_waits (hc : t.claim? k = some c) (hwaits : c.stage.waits = true) :
    t.cancel k = t.without k := by
  rw [cancel_eq_lift hc hwaits, lift_of_waits hc hwaits]

/-! ## Others who wait -/

/-- That whoever waits, or has been handed a mutex, is still there, but for the claim of one ticket. -/
def Keeps (k : Nat) (t u : LockTable) : Prop :=
  ∀ c ∈ t.claims, c.ticket ≠ k → c.stage.isSuspended = true →
    ∃ d ∈ u.claims, d.ticket = c.ticket ∧ d.id = c.id ∧ d.stage.isSuspended = true

theorem Keeps.trans {u v : LockTable} (h : t.Keeps k u) (g : u.Keeps k v) : t.Keeps k v := by
  intro c hc hck hsuspended
  obtain ⟨d, hd, hdc, hid, hstage⟩ := h c hc hck hsuspended
  obtain ⟨x, hx, hxd, hxid, hxstage⟩ := g d hd (hdc.trans_ne hck) hstage
  exact ⟨x, hx, hxd.trans hdc, hxid.trans hid, hxstage⟩

theorem keeps_without : t.Keeps k (t.without k) :=
  fun c hc hck hsuspended => ⟨c, mem_without.mpr ⟨hc, hck⟩, rfl, rfl, hsuspended⟩

theorem keeps_handOn : t.Keeps k (t.handOn m) := by
  intro c hc _ hsuspended
  rw [handOn_eq]
  cases t.nextInLine? m with
  | none => exact ⟨c, hc, rfl, rfl, hsuspended⟩
  | some d =>
    refine ⟨c.moved d.ticket .handed, mem_setStage.mpr ⟨c, hc, rfl⟩, Claim.moved_ticket,
      Claim.moved_id, ?_⟩
    unfold Claim.moved
    split
    · rfl
    · exact hsuspended

theorem keeps_lookedAfter : t.Keeps k (t.lookedAfter id) := by
  intro c hc _ hsuspended
  exact ⟨c, by rw [lookedAfter, evict_claims]; exact hc, rfl, rfl, hsuspended⟩

theorem keeps_resume : t.Keeps k (t.resume k) := by
  intro c hc hck hsuspended
  unfold resume
  split
  · split
    · exact ⟨c, mem_setStage.mpr ⟨c, hc, (Claim.moved_of_ne hck).symm⟩, rfl, rfl, hsuspended⟩
    · exact ⟨c, hc, rfl, rfl, hsuspended⟩
  · exact ⟨c, hc, rfl, rfl, hsuspended⟩

theorem keeps_release (hs : t.Sound) (hc : t.claim? k = some c) (hheld : c.stage = .held) :
    t.Keeps k (t.release k) := by
  rw [release_eq hs hc hheld]
  exact keeps_without.trans (keeps_handOn.trans keeps_lookedAfter)

theorem keeps_expire (hc : t.claim? k = some c) (hwaits : c.stage.waits = true) :
    t.Keeps k (t.expire k) := by
  rw [expire_of_waits hc hwaits]
  exact keeps_without.trans keeps_lookedAfter

theorem keeps_cancel (hs : t.Sound) (hc : t.claim? k = some c)
    (hsuspended : c.stage.isSuspended = true) : t.Keeps k (t.cancel k) := by
  rcases Stage.waits_or_handed hsuspended with hwaits | hhanded
  · rw [cancel_of_waits hc hwaits]
    exact keeps_without
  · rw [cancel_of_handed hs hc hhanded]
    exact keeps_without.trans keeps_handOn

theorem keeps_acquire (hs : t.Sound) (now : Nat) (id : String) (patience : Duration) :
    t.Keeps k (t.acquire now id patience).2 := by
  intro c hc _ hsuspended
  rw [acquire_eq hs]
  exact ⟨c, List.mem_append_left _ hc, rfl, rfl, hsuspended⟩

/-! ## Whose claim it is -/

/-- A mutex that stands under a resource is referred to by claims on that resource alone. -/
theorem Sound.id_of_seat (hs : t.Sound) (hm : t.mutexes.lookup id = some m) (hc : c ∈ t.claims)
    (hcm : c.mutex = m) : c.id = id := by
  have hseat := mem_of_lookup (hs.seated c hc)
  have heq : (c.id, c.mutex) = (id, m) :=
    List.inj_on_of_nodup_map hs.apart hseat (mem_of_lookup hm) hcm
  exact congrArg Prod.fst heq

theorem mem_besides : c ∈ (t.besides i).claims ↔ c ∈ t.claims ∧ c.id ≠ i := by
  simp only [besides, List.mem_filter, decide_eq_true_eq]

theorem Sound.besides (hs : t.Sound) (i : String) : (t.besides i).Sound := by
  refine ⟨hs.tickets.sublist (List.filter_sublist.map _), ?_,
    hs.resources.sublist (List.filter_sublist.map _), hs.apart.sublist (List.filter_sublist.map _), ?_,
    ?_, ?_⟩
  · exact fun c hc => hs.given c (mem_besides.mp hc).1
  · exact fun e he => hs.made e (List.mem_filter.mp he).1
  · intro c hc
    obtain ⟨hcmem, hci⟩ := mem_besides.mp hc
    exact (lookup_filter_ne hci).trans (hs.seated c hcmem)
  · exact fun c hc d hd => hs.exclusive c (mem_besides.mp hc).1 d (mem_besides.mp hd).1

theorem claim?_besides (hs : t.Sound) (hc : t.claim? k = some c) (hci : c.id ≠ i) :
    (t.besides i).claim? k = some c := by
  obtain ⟨hcmem, hck⟩ := mem_of_claim? hc
  exact (hs.besides i).claim?_eq_some.mpr ⟨mem_besides.mpr ⟨hcmem, hci⟩, hck⟩

/-- Who is not on the resource is found as before. -/
theorem claim?_besides_of_any (hs : t.Sound) (hk : (t.claim? k).any (·.id = i) = false) :
    (t.besides i).claim? k = t.claim? k := by
  cases hc : t.claim? k with
  | some c =>
    rw [hc] at hk
    exact claim?_besides hs hc (of_decide_eq_false hk)
  | none =>
    refine List.find?_eq_none.mpr fun c hc' => ?_
    exact List.find?_eq_none.mp hc c (mem_besides.mp hc').1

/-- Nobody is in the table under a ticket of the resource. -/
theorem ticket_ne_of_besides (hs : t.Sound) (hc : t.claim? k = some c) (hci : c.id = i)
    (hd : d ∈ (t.besides i).claims) : d.ticket ≠ k := by
  obtain ⟨hcmem, hck⟩ := mem_of_claim? hc
  obtain ⟨hdmem, hdi⟩ := mem_besides.mp hd
  intro hdk
  rw [hs.eq_of_ticket hdmem hcmem (hdk.trans hck.symm)] at hdi
  exact hdi hci

/-! ## The pieces -/

theorem besides_setStage : (t.setStage k stage).besides i = (t.besides i).setStage k stage := by
  simp only [besides, setStage, List.filter_map, Function.comp_def, Claim.moved_id]

theorem besides_without : (t.without k).besides i = (t.besides i).without k := by
  simp only [besides, without, List.filter_filter, Bool.and_comm]

theorem besides_setStage_self (hs : t.Sound) (hc : t.claim? k = some c) (hci : c.id = i) :
    (t.setStage k stage).besides i = t.besides i := by
  rw [besides_setStage]
  have hsame : (t.besides i).claims.map (Claim.moved k stage) = (t.besides i).claims :=
    (List.map_congr_left fun d hd =>
      Claim.moved_of_ne (ticket_ne_of_besides hs hc hci hd)).trans (List.map_id _)
  simp only [setStage, hsame]

theorem besides_without_self (hs : t.Sound) (hc : t.claim? k = some c) (hci : c.id = i) :
    (t.without k).besides i = t.besides i := by
  rw [besides_without]
  have hsame : (t.besides i).claims.filter (·.ticket ≠ k) = (t.besides i).claims :=
    List.filter_eq_self.mpr fun d hd => decide_eq_true (ticket_ne_of_besides hs hc hci hd)
  simp only [without, hsame]

section Seat

variable (hs : t.Sound) (hm : t.mutexes.lookup id = some m)
include hs hm

/-- The line for the mutex of another resource. -/
theorem nextInLine?_besides (hid : id ≠ i) : (t.besides i).nextInLine? m = t.nextInLine? m := by
  unfold nextInLine? besides
  rw [← List.head?_filter, ← List.head?_filter, List.filter_filter]
  congr 1
  refine List.filter_congr fun c hc => ?_
  cases hw : waitsFor m c with
  | false => exact Bool.false_and _
  | true =>
    have hci : c.id = id := hs.id_of_seat hm hc (waitsFor_iff.mp hw).1
    simp only [hci, hid, ne_eq, not_false_eq_true, decide_true, Bool.and_self]

theorem isFree_besides (hid : id ≠ i) : (t.besides i).isFree m = t.isFree m := by
  rw [Bool.eq_iff_iff, isFree_iff, isFree_iff]
  constructor
  · intro h c hc hcm
    exact h c (mem_besides.mpr ⟨hc, hs.id_of_seat hm hc hcm ▸ hid⟩) hcm
  · exact fun h c hc => h c (mem_besides.mp hc).1

theorem isIdle_besides (hid : id ≠ i) : (t.besides i).isIdle m = t.isIdle m := by
  unfold isIdle
  rw [Bool.eq_iff_iff]
  simp only [List.all_eq_true, decide_eq_true_eq]
  constructor
  · intro h c hc hcm
    exact h c (mem_besides.mpr ⟨hc, hs.id_of_seat hm hc hcm ▸ hid⟩) hcm
  · exact fun h c hc => h c (mem_besides.mp hc).1

theorem besides_handOn (hid : id ≠ i) : (t.handOn m).besides i = (t.besides i).handOn m := by
  rw [handOn_eq, handOn_eq, nextInLine?_besides hs hm hid]
  cases t.nextInLine? m with
  | none => rfl
  | some d => exact besides_setStage

theorem besides_handOn_self (hid : id = i) : (t.handOn m).besides i = t.besides i := by
  rw [handOn_eq]
  cases hnext : t.nextInLine? m with
  | none => rfl
  | some d =>
    obtain ⟨hd, hdm, -⟩ := mem_of_nextInLine? hnext
    exact besides_setStage_self hs (hs.claim?_eq_some.mpr ⟨hd, rfl⟩)
      ((hs.id_of_seat hm hd hdm).trans hid)

end Seat

theorem besides_evict (hs : t.Sound) (hid : id ≠ i) :
    (t.evict id).besides i = (t.besides i).evict id := by
  have hlookup : (t.besides i).mutexes.lookup id = t.mutexes.lookup id := lookup_filter_ne hid
  unfold evict
  rw [hlookup]
  cases hm : t.mutexes.lookup id with
  | none => rfl
  | some m =>
    simp only [isIdle_besides hs hm hid]
    split
    · simp only [besides, List.filter_filter, Bool.and_comm]
    · rfl

theorem besides_evict_self (t : LockTable) (i : String) : (t.evict i).besides i = t.besides i := by
  unfold evict
  split
  · split
    · simp only [besides, List.filter_filter, Bool.and_self]
    · rfl
  · rfl

theorem besides_lookedAfter (hs : t.Sound) (hid : id ≠ i) :
    (t.lookedAfter id).besides i = (t.besides i).lookedAfter id := by
  have hs' : ({ t with lookbacks := (t.lookbacks ++ [id]).erase id } : LockTable).Sound :=
    ⟨hs.tickets, hs.given, hs.resources, hs.apart, hs.made, hs.seated, hs.exclusive⟩
  have hlooks : ((t.lookbacks ++ [id]).erase id).filter (· ≠ i) =
      (t.lookbacks.filter (· ≠ i) ++ [id]).erase id := by
    rw [← List.erase_filter, List.filter_append]
    simp [hid]
  rw [lookedAfter, besides_evict hs' hid, lookedAfter]
  simp only [besides, hlooks]

theorem besides_lookedAfter_self (t : LockTable) (i : String) :
    (t.lookedAfter i).besides i = t.besides i := by
  have hlooks : ((t.lookbacks ++ [i]).erase i).filter (· ≠ i) = t.lookbacks.filter (· ≠ i) := by
    rw [← List.erase_filter, List.filter_append]
    simp
  rw [lookedAfter, besides_evict_self]
  simp only [besides, hlooks]

/-! ## Whole operations on another resource -/

theorem besides_mutexFor (hid : id ≠ i) :
    (t.besides i).mutexFor id = ((t.mutexFor id).1, (t.mutexFor id).2.besides i) := by
  have hlookup : (t.besides i).mutexes.lookup id = t.mutexes.lookup id := lookup_filter_ne hid
  unfold mutexFor
  rw [hlookup]
  cases t.mutexes.lookup id with
  | some m => rfl
  | none => simp [besides, hid]

theorem besides_arrive (hid : id ≠ i) :
    (t.besides i).arrive id patience = ((t.arrive id patience).1, (t.arrive id patience).2.besides i) := by
  simp only [arrive, besides_mutexFor hid]
  simp [besides, hid]

theorem besides_ask (hs : t.Sound) (hc : t.claim? k = some c) (hci : c.id ≠ i) :
    (t.ask now k).besides i = (t.besides i).ask now k := by
  simp only [ask, hc, claim?_besides hs hc hci, besides_setStage,
    isFree_besides hs (hs.seated c (mem_of_claim? hc).1) hci]

theorem besides_acquire (hs : t.Sound) (now : Nat) (hid : id ≠ i) (patience : Duration) :
    (t.besides i).acquire now id patience =
      ((t.acquire now id patience).1, (t.acquire now id patience).2.besides i) := by
  have hask : ((t.arrive id patience).2.ask now (t.arrive id patience).1).besides i =
      ((t.arrive id patience).2.besides i).ask now (t.arrive id patience).1 :=
    besides_ask (hs.arrive id patience) (claim?_arrive hs) hid
  simp only [acquire, besides_arrive hid, hask]

section Leaving

variable (hs : t.Sound) (hc : t.claim? k = some c)
include hs hc

theorem besides_resume (hci : c.id ≠ i) : (t.resume k).besides i = (t.besides i).resume k := by
  simp only [resume, hc, claim?_besides hs hc hci]
  split
  · exact besides_setStage
  · rfl

theorem besides_release (hheld : c.stage = .held) (hci : c.id ≠ i) :
    (t.release k).besides i = (t.besides i).release k := by
  have howns : c.stage.owns = true := by rw [hheld]; rfl
  have hwithout : (t.without k).Sound := hs.without hc (by simp [hheld])
  have hseat : (t.without k).mutexes.lookup c.id = some c.mutex := hs.seated c (mem_of_claim? hc).1
  rw [release_eq hs hc hheld, release_eq (hs.besides i) (claim?_besides hs hc hci) hheld,
    besides_lookedAfter (hwithout.handOn (isFree_without hs hc howns)) hci,
    besides_handOn hwithout hseat hci, besides_without]

theorem besides_expire (hwaits : c.stage.waits = true) (hci : c.id ≠ i) :
    (t.expire k).besides i = (t.besides i).expire k := by
  have hwithout : (t.without k).Sound := hs.without hc fun h => by simp [h, Stage.waits] at hwaits
  rw [expire_of_waits hc hwaits, expire_of_waits (claim?_besides hs hc hci) hwaits,
    besides_lookedAfter hwithout hci, besides_without]

theorem besides_cancel (hsuspended : c.stage.isSuspended = true) (hci : c.id ≠ i) :
    (t.cancel k).besides i = (t.besides i).cancel k := by
  have hc' := claim?_besides hs hc hci
  rcases Stage.waits_or_handed hsuspended with hwaits | hhanded
  · rw [cancel_of_waits hc hwaits, cancel_of_waits hc' hwaits, besides_without]
  · have hwithout : (t.without k).Sound := hs.without hc (by simp [hhanded])
    have hseat : (t.without k).mutexes.lookup c.id = some c.mutex := hs.seated c (mem_of_claim? hc).1
    rw [cancel_of_handed hs hc hhanded, cancel_of_handed (hs.besides i) hc' hhanded,
      besides_handOn hwithout hseat hci, besides_without]

end Leaving

/-! ## Whole operations on the resource itself -/

theorem besides_arrive_self (t : LockTable) (i : String) (patience : Duration) :
    (t.arrive i patience).2.besides i =
      { t.besides i with fresh := (t.arrive i patience).2.fresh } := by
  simp only [arrive, mutexFor]
  cases t.mutexes.lookup i <;> simp [besides]

theorem besides_acquire_self (hs : t.Sound) (now : Nat) (i : String) (patience : Duration) :
    (t.acquire now i patience).2.besides i =
      { t.besides i with fresh := (t.acquire now i patience).2.fresh } := by
  have hc : (t.arrive i patience).2.claim? (t.arrive i patience).1 =
      some ⟨(t.arrive i patience).1, i, (t.mutexFor i).1, patience, .arrived⟩ := claim?_arrive hs
  have hask : (t.acquire now i patience).2 = (t.arrive i patience).2.setStage (t.arrive i patience).1
      (if (t.arrive i patience).2.isFree (t.mutexFor i).1 then .held
        else .waiting (now + patience.milliseconds)) := by
    simp only [acquire, ask, hc]
  rw [hask, besides_setStage_self (hs.arrive i patience) hc rfl, besides_arrive_self]
  rfl

section Leaving

variable (hs : t.Sound) (hc : t.claim? k = some c) (hci : c.id = i)
include hs hc hci

theorem besides_resume_self : (t.resume k).besides i = t.besides i := by
  simp only [resume, hc]
  split
  · exact besides_setStage_self hs hc hci
  · rfl

theorem besides_release_self (hheld : c.stage = .held) : (t.release k).besides i = t.besides i := by
  have hwithout : (t.without k).Sound := hs.without hc (by simp [hheld])
  have hseat : (t.without k).mutexes.lookup c.id = some c.mutex := hs.seated c (mem_of_claim? hc).1
  rw [release_eq hs hc hheld, hci, besides_lookedAfter_self, besides_handOn_self hwithout hseat hci,
    besides_without_self hs hc hci]

theorem besides_expire_self (hwaits : c.stage.waits = true) :
    (t.expire k).besides i = t.besides i := by
  rw [expire_of_waits hc hwaits, hci, besides_lookedAfter_self, besides_without_self hs hc hci]

theorem besides_cancel_self (hsuspended : c.stage.isSuspended = true) :
    (t.cancel k).besides i = t.besides i := by
  rcases Stage.waits_or_handed hsuspended with hwaits | hhanded
  · rw [cancel_of_waits hc hwaits, besides_without_self hs hc hci]
  · have hwithout : (t.without k).Sound := hs.without hc (by simp [hhanded])
    have hseat : (t.without k).mutexes.lookup c.id = some c.mutex := hs.seated c (mem_of_claim? hc).1
    rw [cancel_of_handed hs hc hhanded, besides_handOn_self hwithout hseat hci,
      besides_without_self hs hc hci]

end Leaving

end InletRegistry.LockTable
