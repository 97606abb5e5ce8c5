import InletRegistry.Proofs.Locks.Acting
import Mathlib.Data.List.Perm.Basic

/-!
# What eviction leaves in the table

The table should hold a mutex for a resource exactly while somebody holds its lock or waits for it.
It never holds too few: a claim's mutex is always there. It may hold too many. A claim that releases
the lock, or lapses, looks back after it has departed, and evicts the mutex if it was the last; a
claim that is cancelled does not. So a mutex stays behind for nobody exactly when a cancelled claim
has departed and nobody has looked back at the resource since: it was **forsaken**.

`entry_iff_wanted_or_forsaken` states this for every course of events, at every moment at which no
claim is in the middle of a step.
-/

namespace InletRegistry.LockTable

open InletRegistry.Locks InletRegistry.Lookup InletRegistry.Time

variable {t u : LockTable} {id i : String} {c : Claim} {e : Event} {events : List Event} {m : Nat}

/-- No claim is in the middle of a step: each holds its lock or may be given up, and nobody is about
to look back. -/
structure Settled (t : LockTable) : Prop where
  /-- Whoever has departed has looked back. -/
  lookedBack : t.lookbacks = []
  /-- Whoever has not departed holds its lock, or waits for it or has been handed it. -/
  atRest : ∀ c ∈ t.claims, c.stage = .held ∨ c.stage.isSuspended = true

/-- Somebody holds the lock of a resource, or waits for it. -/
def Wanted (t : LockTable) (id : String) : Prop :=
  ∃ c ∈ t.claims, c.id = id ∧ (c.stage = .held ∨ c.stage.isSuspended = true)

/-- A cancelled claim on the resource has departed, and nobody has looked back at the resource
since. -/
def Forsaken (events : List Event) (id : String) : Prop :=
  ∃ before ticket after t c, events = before ++ .depart ticket :: after ∧
    LockTable.empty.run? before = some t ∧ t.claim? ticket = some c ∧ c.id = id ∧
    c.stage = .leaving false ∧ .lookBack id ∉ after

/-- What has been forsaken stays so until somebody looks back. -/
theorem Forsaken.concat (h : Forsaken events id) (he : e ≠ .lookBack id) :
    Forsaken (events ++ [e]) id := by
  obtain ⟨before, ticket, after, t, c, rfl, hrun, hc, hid, hstage, hafter⟩ := h
  refine ⟨before, ticket, after ++ [e], t, c, ?_, hrun, hc, hid, hstage, ?_⟩
  · rw [List.append_assoc, List.cons_append]
  · rw [List.mem_append, List.mem_singleton]
    rintro (hmem | rfl)
    · exact hafter hmem
    · exact he rfl

/-! ## Mutexes that are in the table -/

theorem lookup_mutexFor_ne (h : i ≠ id) :
    (t.mutexFor id).2.mutexes.lookup i = t.mutexes.lookup i := by
  unfold mutexFor
  split
  · rfl
  · have hne : (i == id) = false := beq_eq_false_iff_ne.mpr h
    simp only [List.lookup_append, List.lookup_cons, List.lookup_nil, hne, Option.or_none]

theorem lookup_evict_ne (h : i ≠ id) : (t.evict id).mutexes.lookup i = t.mutexes.lookup i := by
  rcases evict_mutexes t id with hsame | ⟨_, _, _, hout⟩
  · rw [hsame]
  · rw [hout, lookup_filter_ne h]

/-- A mutex that is still there after somebody has looked is referred to by a claim on its
resource. -/
theorem exists_claim_of_lookup_evict (hs : t.Sound) (h : (t.evict id).mutexes.lookup id = some m) :
    ∃ c ∈ t.claims, c.id = id := by
  by_contra hnone
  have hm : t.mutexes.lookup id = some m := by
    rcases evict_mutexes t id with hsame | ⟨_, _, _, hout⟩
    · rwa [hsame] at h
    · rw [hout, lookup_filter_self] at h
      cases h
  have hidle : ∀ c ∈ t.claims, c.mutex ≠ m := by
    exact fun c hc heq => hnone ⟨c, hc, hs.id_eq_of_lookup hm hc heq⟩
  rw [evict_of_idle hm hidle, lookup_filter_self] at h
  cases h

/-- Only looking back at a resource takes its mutex out of the table. -/
theorem present_next (h : (t.mutexes.lookup id).isSome) (he : t.next? e = some u)
    (hne : e ≠ .lookBack id) : (u.mutexes.lookup id).isSome := by
  rcases next?_cases he with ⟨i, patience, -, rfl⟩ | ⟨_, c, _, -, -, -, -, rfl⟩ |
    ⟨_, c, -, -, -, rfl⟩ | ⟨i, rfl, -, rfl⟩
  · have hfetch : ((t.mutexFor i).2.mutexes.lookup id).isSome := by
      unfold mutexFor
      split
      · exact h
      · rw [List.lookup_append, Option.isSome_or, h, Bool.true_or]
    exact hfetch
  · exact h
  · rw [depart_mutexes]
    exact h
  · have hi : id ≠ i := fun heq => hne (congrArg Event.lookBack heq.symm)
    have hkept := lookup_evict_ne (t := { t with lookbacks := t.lookbacks.erase i }) hi
    rw [lookBack, hkept]
    exact h

/-- Without a look back at a resource its mutex stays in the table. -/
theorem present_run (h : (t.mutexes.lookup id).isSome) (hrun : t.run? events = some u)
    (hne : .lookBack id ∉ events) : (u.mutexes.lookup id).isSome := by
  induction events generalizing t with
  | nil =>
    cases hrun
    exact h
  | cons e events ih =>
    obtain ⟨v, hv, hrest⟩ := Option.bind_eq_some_iff.mp hrun
    have hpresent := present_next h hv fun heq => hne (heq ▸ List.mem_cons_self)
    exact ih hpresent hrest fun hmem => hne (List.mem_cons_of_mem e hmem)

/-- The mutex of a forsaken resource is in the table. -/
theorem present_of_forsaken (h : LockTable.empty.run? events = some t) (hf : Forsaken events id) :
    (t.mutexes.lookup id).isSome := by
  obtain ⟨before, ticket, after, u, c, rfl, hrun, hc, rfl, -, hafter⟩ := hf
  obtain ⟨v, hv, hrest⟩ := course?_split h
  obtain rfl := Option.some.inj (hrun.symm.trans hv)
  have hseated := (Sound.empty.run hrun).seated c (mem_of_claim? hc).1
  refine present_run (by rw [hseated]; rfl) hrest ?_
  rw [List.mem_cons, not_or]
  exact ⟨nofun, hafter⟩

/-! ## Why a mutex is in the table -/

/-- Every mutex in the table is referred to, or will be looked at, or was forsaken. -/
theorem attended (h : LockTable.empty.run? events = some t) :
    ∀ id, (t.mutexes.lookup id).isSome →
      (∃ c ∈ t.claims, c.id = id) ∨ id ∈ t.lookbacks ∨ Forsaken events id := by
  refine course?_induction (P := fun es t => ∀ id, (t.mutexes.lookup id).isSome →
      (∃ c ∈ t.claims, c.id = id) ∨ id ∈ t.lookbacks ∨ Forsaken es id) ?_ ?_ h
  · intro id hpresent
    cases hpresent
  intro es t e u hrun ih he id hpresent
  have hs : t.Sound := Sound.empty.run hrun
  rcases next?_cases he with ⟨i, patience, rfl, rfl⟩ | ⟨_, c, _, hticket, -, -, -, rfl⟩ |
    ⟨ticket, c, rfl, hc, hleaving, rfl⟩ | ⟨i, rfl, -, rfl⟩
  · rw [arrive_claims]
    by_cases hi : id = i
    · exact Or.inl ⟨_, List.mem_append_right _ List.mem_cons_self, hi.symm⟩
    · have hbefore : (t.mutexes.lookup id).isSome := by
        rw [← lookup_mutexFor_ne hi]
        exact hpresent
      rcases ih id hbefore with ⟨d, hd, hid⟩ | hback | hf
      · exact Or.inl ⟨d, List.mem_append_left _ hd, hid⟩
      · refine Or.inr (Or.inl ?_)
        simp only [arrive, (hs.mutexFor i).2.2.1]
        exact hback
      · exact Or.inr (Or.inr (hf.concat Event.noConfusion))
  · rcases ih id hpresent with ⟨d, hd, hid⟩ | hback | hf
    · exact Or.inl ⟨_, mem_setStage.mpr ⟨d, hd, rfl⟩, by rw [Claim.moved_id, hid]⟩
    · exact Or.inr (Or.inl hback)
    · refine Or.inr (Or.inr (hf.concat ?_))
      rintro rfl
      cases hticket
  · rw [depart_mutexes] at hpresent
    rw [depart_claims hc, depart_lookbacks hc]
    rcases ih id hpresent with ⟨d, hd, hid⟩ | hback | hf
    · by_cases hticket : d.ticket = ticket
      · -- The claim that departs is the one that was there: what matters is whether it looks back.
        obtain rfl := Option.some.inj ((hs.claim?_eq_some.mpr ⟨hd, hticket⟩).symm.trans hc)
        cases hstage : d.stage with
        | leaving looksBack =>
          cases looksBack with
          | true =>
            rw [if_pos rfl]
            exact Or.inr (Or.inl (List.mem_append_right _ (hid ▸ List.mem_cons_self)))
          | false =>
            exact Or.inr (Or.inr ⟨es, ticket, [], t, d, rfl, hrun, hc, hid, hstage,
              List.not_mem_nil⟩)
        | arrived | waiting | handed | held =>
          rw [hstage] at hleaving
          cases hleaving
      · exact Or.inl ⟨d, List.mem_filter.mpr ⟨hd, decide_eq_true hticket⟩, hid⟩
    · refine Or.inr (Or.inl ?_)
      split
      · exact List.mem_append_left _ hback
      · exact hback
    · exact Or.inr (Or.inr (hf.concat Event.noConfusion))
  · have hs' : { t with lookbacks := t.lookbacks.erase i }.Sound :=
      ⟨hs.tickets, hs.given, hs.resources, hs.apart, hs.made, hs.seated, hs.exclusive⟩
    rw [lookBack] at hpresent ⊢
    rw [evict_claims, evict_lookbacks]
    by_cases hi : id = i
    · obtain ⟨m, hm⟩ := Option.isSome_iff_exists.mp hpresent
      rw [hi] at hm
      obtain ⟨d, hd, hid⟩ := exists_claim_of_lookup_evict hs' hm
      exact Or.inl ⟨d, hd, hid.trans hi.symm⟩
    · rw [lookup_evict_ne hi] at hpresent
      rcases ih id hpresent with hclaim | hback | hf
      · exact Or.inl hclaim
      · exact Or.inr (Or.inl ((List.mem_erase_of_ne hi).mpr hback))
      · exact Or.inr (Or.inr (hf.concat fun heq => hi (Event.lookBack.inj heq).symm))

/-! ## The exact condition -/

/-- A claim comes to leave without looking back only by being cancelled. -/
theorem stage_ne_of_next (h : ∀ c ∈ t.claims, c.stage ≠ .leaving false) (he : t.next? e = some u)
    (hne : ∀ ticket, e ≠ .cancel ticket) : ∀ d ∈ u.claims, d.stage ≠ .leaving false := by
  rcases next?_cases he with ⟨i, patience, -, rfl⟩ | ⟨ticket, c, stage, -, -, -, hcancel, rfl⟩ |
    ⟨_, c, -, hc, -, rfl⟩ | ⟨i, -, -, rfl⟩
  · intro d hd
    rw [arrive_claims] at hd
    rcases List.mem_append.mp hd with hold | hlast
    · exact h d hold
    · rw [List.mem_singleton.mp hlast]
      exact nofun
  · intro d' hd'
    obtain ⟨d, hd, rfl⟩ := mem_setStage.mp hd'
    by_cases hticket : d.ticket = ticket
    · rw [Claim.moved_of_ticket hticket]
      exact fun hstage => hne ticket (hcancel hstage)
    · rw [Claim.moved_of_ne hticket]
      exact h d hd
  · intro d hd
    rw [depart_claims hc] at hd
    exact h d (List.mem_filter.mp hd).1
  · intro d hd
    rw [lookBack, evict_claims] at hd
    exact h d hd

/-- Without a cancellation nothing is forsaken. -/
theorem not_forsaken_of_no_cancel (h : ∀ ticket, .cancel ticket ∉ events) :
    ¬ Forsaken events id := by
  rintro ⟨before, ticket, after, t, c, rfl, hrun, hc, -, hstage, -⟩
  have hnone : (∀ ticket, .cancel ticket ∉ before) → ∀ c ∈ t.claims, c.stage ≠ .leaving false := by
    refine course?_induction (P := fun es t => (∀ ticket, .cancel ticket ∉ es) →
      ∀ c ∈ t.claims, c.stage ≠ .leaving false) (fun _ => nofun) ?_ hrun
    intro es t e u _ ih he hfree
    have ih := ih fun ticket hmem => hfree ticket (List.mem_append_left _ hmem)
    refine stage_ne_of_next ih he ?_
    rintro ticket rfl
    exact hfree ticket (List.mem_append_right _ List.mem_cons_self)
  exact hnone (fun ticket hmem => h ticket (List.mem_append_left _ hmem)) c
    (mem_of_claim? hc).1 hstage

theorem Settled.wanted_of_claim (h : t.Settled) (hc : c ∈ t.claims) : t.Wanted c.id :=
  ⟨c, hc, rfl, h.atRest c hc⟩

theorem present_of_wanted (hs : t.Sound) (h : t.Wanted id) : (t.mutexes.lookup id).isSome := by
  obtain ⟨c, hc, rfl, -⟩ := h
  rw [hs.seated c hc]
  rfl

theorem isSome_lookup_iff : (t.mutexes.lookup id).isSome ↔ id ∈ t.mutexes.map (·.1) := by
  rw [← Option.ne_none_iff_isSome, ne_eq, List.lookup_eq_none_iff]
  simp only [bne_iff_ne, ne_eq, not_forall, Decidable.not_not, List.mem_map]
  constructor
  · rintro ⟨e, he, heq⟩
    exact ⟨e, he, heq.symm⟩
  · rintro ⟨e, he, heq⟩
    exact ⟨e, he, heq.symm⟩

/-- A list that names every resource with a mutex once is as long as the table is large. -/
theorem size_eq_length (hs : t.Sound) {ids : List String} (hnodup : ids.Nodup)
    (hids : ∀ id, id ∈ ids ↔ (t.mutexes.lookup id).isSome) : t.size = ids.length := by
  have hperm : ids.Perm (t.mutexes.map (·.1)) := by
    refine (List.perm_ext_iff_of_nodup hnodup hs.resources).mpr ?_
    intro id
    rw [hids, isSome_lookup_iff]
  rw [hperm.length_eq, List.length_map, LockTable.size]

/-- **What eviction leaves.** After every course of events that ends with no claim in the middle of a
step, the table has a mutex for a resource exactly if somebody holds its lock or waits for it, or if
it has been forsaken; so the size of the table is the number of these resources; and nothing is ever
forsaken unless a claim has been cancelled. -/
theorem entry_iff_wanted_or_forsaken (h : LockTable.empty.run? events = some t)
    (hsettled : t.Settled) :
    (∀ id, (t.mutexes.lookup id).isSome ↔ t.Wanted id ∨ Forsaken events id) ∧
    (∀ ids : List String, ids.Nodup → (∀ id, id ∈ ids ↔ t.Wanted id ∨ Forsaken events id) →
      t.size = ids.length) ∧
    ((∀ ticket, .cancel ticket ∉ events) → ∀ id, ¬ Forsaken events id) := by
  have hs : t.Sound := Sound.empty.run h
  have hentry : ∀ id, (t.mutexes.lookup id).isSome ↔ t.Wanted id ∨ Forsaken events id := by
    intro id
    constructor
    · intro hpresent
      rcases attended h id hpresent with ⟨c, hc, rfl⟩ | hback | hforsaken
      · exact Or.inl (hsettled.wanted_of_claim hc)
      · rw [hsettled.lookedBack] at hback
        cases hback
      · exact Or.inr hforsaken
    · rintro (hwanted | hforsaken)
      · exact present_of_wanted hs hwanted
      · exact present_of_forsaken h hforsaken
  refine ⟨hentry, ?_, ?_⟩
  · intro ids hnodup hids
    refine size_eq_length hs hnodup ?_
    intro id
    rw [hids, hentry]
  · intro hfree id
    exact not_forsaken_of_no_cancel hfree

/-- A claim that has been handed the lock is cancelled before it runs, and is the last. -/
def abandonedHandover : List Event :=
  [.arrive "p1" (.ofSeconds 1), .ask 0 1, .arrive "p1" (.ofSeconds 1), .ask 0 3, .release 1,
    .hand 3, .depart 1, .lookBack "p1", .cancel 3, .depart 3]

/-- Nobody holds or wants the lock after the abandoned handover, and its mutex is in the table. -/
theorem entry_iff_wanted_or_forsaken_abandoned :
    ∃ t : LockTable, LockTable.empty.run? abandonedHandover = some t ∧ t.Settled ∧ t.claims = [] ∧
      t.size = 1 ∧
      (∀ id, (t.mutexes.lookup id).isSome ↔ t.Wanted id ∨ Forsaken abandonedHandover id) ∧
      (∀ ids : List String, ids.Nodup →
        (∀ id, id ∈ ids ↔ t.Wanted id ∨ Forsaken abandonedHandover id) → t.size = ids.length) ∧
      ((∀ ticket, .cancel ticket ∉ abandonedHandover) →
        ∀ id, ¬ Forsaken abandonedHandover id) := by
  have hrun : LockTable.empty.run? abandonedHandover = some ⟨[("p1", 0)], [], [], 4⟩ := by decide
  have hsettled : Settled ⟨[("p1", 0)], [], [], 4⟩ := ⟨rfl, nofun⟩
  exact ⟨_, hrun, hsettled, rfl, rfl, entry_iff_wanted_or_forsaken hrun hsettled⟩

/-- It is not so that a table in which no claim is in the middle of a step has mutexes only for the
resources that somebody holds or waits for. -/
theorem not_entry_iff_wanted :
    ¬ ∀ (events : List Event) (t : LockTable), LockTable.empty.run? events = some t → t.Settled →
      ∀ id, (t.mutexes.lookup id).isSome ↔ t.Wanted id := by
  intro h
  have hrun : LockTable.empty.run? abandonedHandover = some ⟨[("p1", 0)], [], [], 4⟩ := by decide
  obtain ⟨c, hc, -⟩ := (h _ _ hrun ⟨rfl, nofun⟩ "p1").mp rfl
  cases hc

-- The same happens to two claims that act one at a time.
example :
    (((((LockTable.empty.acquire 0 "p1" (.ofSeconds 1)).2.acquire 0 "p1" (.ofSeconds 1)).2.release
      1).cancel 3) = ⟨[("p1", 0)], [], [], 4⟩) := by
  decide

end InletRegistry.LockTable
