import InletRegistry.Locks.Event
import InletRegistry.Proofs.Lookup
import Mathlib.Data.List.Nodup

/-!
# Sound tables of locks

What holds of a table of locks under every course of events. A table is **sound** when every claim
stands on the very mutex that the table holds under the claim's resource, when a mutex is the own of
one claim at most, and when tickets, resources and mutexes are told apart as they should.

The heart is eviction: a mutex goes out of the table only while no claim refers to it, so no claim
is left with a mutex that the table has forgotten. The events are first brought down to four kinds
of change (`next?_cases`), and soundness is kept by each of the four.
-/

namespace InletRegistry.LockTable

open InletRegistry.Locks InletRegistry.Lookup InletRegistry.Time

variable {t u : LockTable} {ticket other now : Nat} {stage : Stage} {id : String} {c d : Claim}
  {e : Event}

/-! ## Reading a changed table -/

theorem mem_setStage :
    d ∈ (t.setStage ticket stage).claims ↔ ∃ c ∈ t.claims, d = c.moved ticket stage := by
  simp only [setStage, List.mem_map, eq_comm]

theorem mem_of_claim? (h : t.claim? ticket = some c) : c ∈ t.claims ∧ c.ticket = ticket := by
  have hticket := List.find?_some (p := fun c : Claim => decide (c.ticket = ticket)) h
  exact ⟨List.mem_of_find?_eq_some h, of_decide_eq_true hticket⟩

theorem claim?_of_holds (h : t.holds ticket = true) :
    ∃ c, t.claim? ticket = some c ∧ c.stage = .held := by
  unfold holds at h
  split at h
  next c hc => exact ⟨c, hc, of_decide_eq_true h⟩
  next => cases h

/-- Every claim is found where it was, and moved on if it is the one. -/
theorem claim?_setStage :
    (t.setStage ticket stage).claim? other = (t.claim? other).map (Claim.moved ticket stage) := by
  unfold claim? setStage
  rw [List.find?_map]
  simp only [Function.comp_def, Claim.moved_ticket]

/-- The claim of a ticket is found where it was put. -/
theorem claim?_setStage_self (hc : t.claim? ticket = some c) :
    (t.setStage ticket stage).claim? ticket = some { c with stage } := by
  rw [claim?_setStage, hc, Option.map_some, Claim.moved_of_ticket (mem_of_claim? hc).2]

theorem depart_claims (h : t.claim? ticket = some c) :
    (t.depart ticket).claims = t.claims.filter (·.ticket ≠ ticket) := by
  simp only [depart, h]

theorem depart_lookbacks (h : t.claim? ticket = some c) :
    (t.depart ticket).lookbacks =
      if c.stage = .leaving true then t.lookbacks ++ [c.id] else t.lookbacks := by
  simp only [depart, h]

@[simp] theorem depart_mutexes : (t.depart ticket).mutexes = t.mutexes := by
  unfold depart
  split <;> rfl

@[simp] theorem depart_fresh : (t.depart ticket).fresh = t.fresh := by
  unfold depart
  split <;> rfl

@[simp] theorem evict_claims : (t.evict id).claims = t.claims := by
  unfold evict
  repeat' split
  all_goals rfl

@[simp] theorem evict_lookbacks : (t.evict id).lookbacks = t.lookbacks := by
  unfold evict
  repeat' split
  all_goals rfl

@[simp] theorem evict_fresh : (t.evict id).fresh = t.fresh := by
  unfold evict
  repeat' split
  all_goals rfl

/-- The mutexes after an eviction: either nothing is taken out, or one mutex that is idle. -/
theorem evict_mutexes (t : LockTable) (id : String) :
    (t.evict id).mutexes = t.mutexes ∨
      ∃ m, t.mutexes.lookup id = some m ∧ (∀ c ∈ t.claims, c.mutex ≠ m) ∧
        (t.evict id).mutexes = t.mutexes.filter (·.1 ≠ id) := by
  unfold evict
  split
  next m hm =>
    split
    next hidle =>
      right
      refine ⟨m, hm, ?_, rfl⟩
      intro c hc
      exact of_decide_eq_true (List.all_eq_true.mp hidle c hc)
    next => exact Or.inl rfl
  next => exact Or.inl rfl

/-- A mutex that is idle and looked at goes out of the table. -/
theorem evict_of_idle {m : Nat} (hm : t.mutexes.lookup id = some m)
    (hidle : ∀ c ∈ t.claims, c.mutex ≠ m) :
    (t.evict id).mutexes = t.mutexes.filter (·.1 ≠ id) := by
  have hall : t.isIdle m = true :=
    List.all_eq_true.mpr fun c hc => decide_eq_true (hidle c hc)
  simp only [evict, hm, hall, ↓reduceIte]

theorem isFree_iff {m : Nat} :
    t.isFree m = true ↔ ∀ c ∈ t.claims, c.mutex = m → c.stage.owns = false := by
  simp only [isFree, List.all_eq_true, Bool.or_eq_true, decide_eq_true_eq, Bool.not_eq_true',
    or_iff_not_imp_left, Decidable.not_not]

@[simp] theorem mutexFor_claims : (t.mutexFor id).2.claims = t.claims := by
  unfold mutexFor
  split <;> rfl

/-- The claim that has just arrived stands behind all others. -/
theorem arrive_claims :
    (t.arrive id patience).2.claims =
      t.claims ++ [⟨(t.arrive id patience).1, id, (t.mutexFor id).1, patience, .arrived⟩] := by
  simp only [arrive, mutexFor_claims]

@[simp] theorem mutexFor_fresh : (t.mutexFor id).2.fresh = t.fresh + 1 := by
  unfold mutexFor
  split <;> rfl

/-- Whoever arrives draws a number for a mutex and the next one for himself. -/
@[simp] theorem arrive_ticket : (t.arrive id patience).1 = t.fresh + 1 := mutexFor_fresh

@[simp] theorem arrive_fresh : (t.arrive id patience).2.fresh = t.fresh + 2 :=
  congrArg (· + 1) mutexFor_fresh

/-- The ticket of a claim that arrives has not been given out. -/
theorem fresh_le_arrive (t : LockTable) (id : String) (patience : Duration) :
    t.fresh ≤ (t.arrive id patience).1 := Nat.le_of_lt (Nat.lt_of_lt_of_eq (Nat.lt_succ_self _) arrive_ticket.symm)

/-! ## What an event can do -/

/-- An event lets a claim arrive, moves its claim on, lets its claim depart or looks back. A claim that
is moved on has the mutex for its own only if it had before or if the mutex was free, and it leaves
without looking back only if it is cancelled. -/
theorem next?_cases (h : t.next? e = some u) :
    (∃ id patience, e = .arrive id patience ∧ u = (t.arrive id patience).2) ∨
    (∃ ticket c stage, e.ticket? = some ticket ∧ t.claim? ticket = some c ∧
      (stage.owns = true → c.stage.owns = true ∨ t.isFree c.mutex = true) ∧
      (stage = .leaving false → e = .cancel ticket) ∧ u = t.setStage ticket stage) ∨
    (∃ ticket c, e = .depart ticket ∧ t.claim? ticket = some c ∧ c.stage.isLeaving = true ∧
      u = t.depart ticket) ∨
    (∃ id, e = .lookBack id ∧ id ∈ t.lookbacks ∧ u = t.lookBack id) := by
  cases e with
  | arrive id patience => exact .inl ⟨id, patience, rfl, (Option.some.inj h).symm⟩
  | ask now ticket =>
    obtain ⟨⟨c, hc, _⟩, rfl⟩ := map_claimAt?_eq_some.mp h
    refine .inr (.inl ⟨ticket, c, _, rfl, hc, ?_, ?_, by simp only [ask, hc]; rfl⟩)
    · intro howns
      by_cases hfree : t.isFree c.mutex = true
      · exact Or.inr hfree
      · simp only [hfree, Bool.false_eq_true, ↓reduceIte, Stage.owns] at howns
    · split <;> exact nofun
  | hand ticket =>
    obtain ⟨c, hc, rfl⟩ := Option.map_eq_some_iff.mp h
    obtain ⟨hc, hfree⟩ := Option.filter_eq_some_iff.mp hc
    exact .inr (.inl ⟨ticket, c, .handed, rfl, (claimAt?_eq_some.mp hc).1,
      fun _ => Or.inr hfree, nofun, rfl⟩)
  | resume ticket =>
    obtain ⟨⟨c, hc, hstage⟩, rfl⟩ := map_claimAt?_eq_some.mp h
    have hstage : c.stage = .handed := of_decide_eq_true hstage
    exact .inr (.inl ⟨ticket, c, .held, rfl, hc, fun _ => Or.inl (by rw [hstage]; rfl), nofun,
      by simp only [resume, hc, hstage, ↓reduceIte]⟩)
  | release ticket =>
    obtain ⟨⟨c, hc, _⟩, rfl⟩ := map_claimAt?_eq_some.mp h
    exact .inr (.inl ⟨ticket, c, .leaving true, rfl, hc, nofun, nofun, rfl⟩)
  | lapse ticket =>
    obtain ⟨⟨c, hc, _⟩, rfl⟩ := map_claimAt?_eq_some.mp h
    exact .inr (.inl ⟨ticket, c, .leaving true, rfl, hc, nofun, nofun, rfl⟩)
  | cancel ticket =>
    obtain ⟨⟨c, hc, _⟩, rfl⟩ := map_claimAt?_eq_some.mp h
    exact .inr (.inl ⟨ticket, c, .leaving false, rfl, hc, nofun, fun _ => rfl, rfl⟩)
  | depart ticket =>
    obtain ⟨⟨c, hc, hleaving⟩, rfl⟩ := map_claimAt?_eq_some.mp h
    exact .inr (.inr (.inl ⟨ticket, c, rfl, hc, hleaving, rfl⟩))
  | lookBack id =>
    simp only [next?] at h
    split at h
    next hmem => exact .inr (.inr (.inr ⟨id, rfl, hmem, (Option.some.inj h).symm⟩))
    next => cases h

/-- Numbers are given out in ascending order. -/
theorem fresh_le_next (he : t.next? e = some u) : t.fresh ≤ u.fresh := by
  rcases next?_cases he with ⟨id, patience, -, rfl⟩ | ⟨_, _, _, -, -, -, -, rfl⟩ |
    ⟨_, _, -, -, -, rfl⟩ | ⟨id, -, -, rfl⟩
  · exact Nat.le_of_lt (Nat.lt_of_le_of_lt (fresh_le_arrive t id patience) (Nat.lt_succ_self _))
  · exact Nat.le_refl _
  · exact Nat.le_of_eq depart_fresh.symm
  · simp only [lookBack, evict_fresh, Nat.le_refl]

/-- Only its departure is left to a claim that leaves. -/
theorem not_leaving_of_next (he : t.next? e = some u) (hticket : e.ticket? = some ticket) :
    (∃ c, t.claim? ticket = some c ∧ c.stage.isLeaving = false) ∨ e = .depart ticket := by
  cases e with
  | arrive | lookBack => cases hticket
  | depart k =>
    obtain rfl := Option.some.inj hticket
    exact Or.inr rfl
  | hand k =>
    obtain rfl := Option.some.inj hticket
    obtain ⟨c, hc, -⟩ := Option.map_eq_some_iff.mp he
    obtain ⟨hc, hplace⟩ := claimAt?_eq_some.mp (Option.filter_eq_some_iff.mp hc).1
    refine Or.inl ⟨c, hc, ?_⟩
    cases hstage : c.stage <;> simp_all [Stage.waits, Stage.isLeaving]
  | ask _ k | resume k | release k | lapse k | cancel k =>
    obtain rfl := Option.some.inj hticket
    obtain ⟨⟨c, hc, hplace⟩, -⟩ := map_claimAt?_eq_some.mp he
    refine Or.inl ⟨c, hc, ?_⟩
    cases hstage : c.stage <;> simp_all [Stage.isSuspended, Stage.isLeaving]

/-! ## Soundness -/

/-- What holds of a table of locks at any time. -/
structure Sound (t : LockTable) : Prop where
  /-- No two claims have the same ticket. -/
  tickets : (t.claims.map (·.ticket)).Nodup
  /-- Every ticket has been given out. -/
  given : ∀ c ∈ t.claims, c.ticket < t.fresh
  /-- No resource has two mutexes. -/
  resources : (t.mutexes.map (·.1)).Nodup
  /-- No two resources share a mutex. -/
  apart : (t.mutexes.map (·.2)).Nodup
  /-- Every mutex has been made. -/
  made : ∀ e ∈ t.mutexes, e.2 < t.fresh
  /-- Every claim refers to the mutex that the table holds for its resource. -/
  seated : ∀ c ∈ t.claims, t.mutexes.lookup c.id = some c.mutex
  /-- A mutex is the own of one claim at most. -/
  exclusive : ∀ c ∈ t.claims, ∀ d ∈ t.claims, c.mutex = d.mutex → c.stage.owns = true →
    d.stage.owns = true → c.ticket = d.ticket

theorem Sound.empty : LockTable.empty.Sound := by
  constructor <;> simp [LockTable.empty]

namespace Sound

/-- Numbers may be passed over. -/
theorem passed (h : t.Sound) (n : Nat) : ({ t with fresh := t.fresh + n } : LockTable).Sound :=
  ⟨h.tickets, fun c hc => Nat.lt_add_right n (h.given c hc), h.resources, h.apart,
    fun e he => Nat.lt_add_right n (h.made e he), h.seated, h.exclusive⟩

theorem eq_of_ticket (h : t.Sound) (hc : c ∈ t.claims) (hd : d ∈ t.claims)
    (heq : c.ticket = d.ticket) : c = d :=
  List.inj_on_of_nodup_map h.tickets hc hd heq

theorem claim?_eq_some (h : t.Sound) :
    t.claim? ticket = some c ↔ c ∈ t.claims ∧ c.ticket = ticket := by
  constructor
  · exact mem_of_claim?
  · rintro ⟨hc, hticket⟩
    cases hfound : t.claim? ticket with
    | none => exact absurd (decide_eq_true hticket) (List.find?_eq_none.mp hfound c hc)
    | some d =>
      obtain ⟨hd, hdticket⟩ := mem_of_claim? hfound
      rw [h.eq_of_ticket hd hc (hdticket.trans hticket.symm)]

/-- Claims on the same resource refer to the same mutex. -/
theorem mutex_eq_of_id (h : t.Sound) (hc : c ∈ t.claims) (hd : d ∈ t.claims) (hid : c.id = d.id) :
    c.mutex = d.mutex := by
  have hcd := h.seated d hd
  rw [← hid, h.seated c hc] at hcd
  exact Option.some.inj hcd

/-- Only claims on a resource refer to its mutex. -/
theorem id_eq_of_lookup (h : t.Sound) {m : Nat} (hm : t.mutexes.lookup id = some m)
    (hc : c ∈ t.claims) (hcm : c.mutex = m) : c.id = id := by
  have hpair : (c.id, c.mutex) = (id, m) :=
    List.inj_on_of_nodup_map h.apart (mem_of_lookup (h.seated c hc)) (mem_of_lookup hm) hcm
  exact congrArg Prod.fst hpair

/-- Claims on the same mutex are claims on the same resource. -/
theorem id_eq_of_mutex (h : t.Sound) (hc : c ∈ t.claims) (hd : d ∈ t.claims)
    (hm : c.mutex = d.mutex) : c.id = d.id :=
  h.id_eq_of_lookup (h.seated d hd) hc hm

/-- A resource has its mutex for the own of one claim at most. -/
theorem owner_unique (h : t.Sound) (hc : c ∈ t.claims) (hd : d ∈ t.claims) (hid : c.id = d.id)
    (hcown : c.stage.owns = true) (hdown : d.stage.owns = true) : c = d :=
  h.eq_of_ticket hc hd (h.exclusive c hc d hd (h.mutex_eq_of_id hc hd hid) hcown hdown)

/-- Fetching the mutex of a resource keeps a table sound, changes no claim, and leaves the mutex in
the table. -/
theorem mutexFor (h : t.Sound) (id : String) :
    (t.mutexFor id).2.Sound ∧ (t.mutexFor id).2.claims = t.claims ∧
      (t.mutexFor id).2.lookbacks = t.lookbacks ∧
      (t.mutexFor id).2.mutexes.lookup id = some (t.mutexFor id).1 := by
  unfold LockTable.mutexFor
  split
  next m hm => exact ⟨h.passed 1, rfl, rfl, hm⟩
  next hnone =>
    have hnew : ∀ e ∈ t.mutexes, e.1 ≠ id := by
      intro e he heq
      have := List.lookup_eq_none_iff.mp hnone e he
      simp only [heq, bne_self_eq_false, Bool.false_eq_true] at this
    refine ⟨⟨h.tickets, ?_, ?_, ?_, ?_, ?_, h.exclusive⟩, rfl, rfl, ?_⟩
    · intro c hc
      exact Nat.lt_succ_of_lt (h.given c hc)
    · simp only [List.map_append, List.map_cons, List.map_nil]
      refine List.nodup_append.mpr ⟨h.resources, List.nodup_singleton _, ?_⟩
      intro i hi j hj
      obtain ⟨e, he, rfl⟩ := List.mem_map.mp hi
      rw [List.mem_singleton.mp hj]
      exact hnew e he
    · simp only [List.map_append, List.map_cons, List.map_nil]
      refine List.nodup_append.mpr ⟨h.apart, List.nodup_singleton _, ?_⟩
      intro i hi j hj
      obtain ⟨e, he, rfl⟩ := List.mem_map.mp hi
      rw [List.mem_singleton.mp hj]
      exact Nat.ne_of_lt (h.made e he)
    · intro e he
      rcases List.mem_append.mp he with hold | hlast
      · exact Nat.lt_succ_of_lt (h.made e hold)
      · rw [List.mem_singleton.mp hlast]
        exact Nat.lt_succ_self _
    · intro c hc
      rw [List.lookup_append, h.seated c hc]
      rfl
    · rw [List.lookup_append, hnone]
      exact List.lookup_cons_self

theorem arrive (h : t.Sound) (id : String) (patience : Duration) :
    (t.arrive id patience).2.Sound := by
  obtain ⟨hs, -, -, hseat⟩ := h.mutexFor id
  simp only [LockTable.arrive]
  generalize t.mutexFor id = fetched at hs hseat ⊢
  obtain ⟨m, t⟩ := fetched
  refine ⟨?_, ?_, hs.resources, hs.apart, ?_, ?_, ?_⟩
  · simp only [List.map_append, List.map_cons, List.map_nil]
    refine List.nodup_append.mpr ⟨hs.tickets, List.nodup_singleton _, ?_⟩
    intro k hk j hj
    obtain ⟨c, hc, rfl⟩ := List.mem_map.mp hk
    rw [List.mem_singleton.mp hj]
    exact Nat.ne_of_lt (hs.given c hc)
  · intro c hc
    rcases List.mem_append.mp hc with hold | hlast
    · exact Nat.lt_succ_of_lt (hs.given c hold)
    · rw [List.mem_singleton.mp hlast]
      exact Nat.lt_succ_self _
  · intro e he
    exact Nat.lt_succ_of_lt (hs.made e he)
  · intro c hc
    rcases List.mem_append.mp hc with hold | hlast
    · exact hs.seated c hold
    · rw [List.mem_singleton.mp hlast]
      exact hseat
  · intro c hc d hd hm hcown hdown
    rcases List.mem_append.mp hc with hcold | hclast
    · rcases List.mem_append.mp hd with hdold | hdlast
      · exact hs.exclusive c hcold d hdold hm hcown hdown
      · rw [List.mem_singleton.mp hdlast] at hdown
        cases hdown
    · rw [List.mem_singleton.mp hclast] at hcown
      cases hcown

/-- Moving a claim on keeps a table sound, if the claim gets the mutex for its own only where it had
it before or where the mutex was free. -/
theorem setStage (h : t.Sound) (hc : t.claim? ticket = some c)
    (howns : stage.owns = true → c.stage.owns = true ∨ t.isFree c.mutex = true) :
    (t.setStage ticket stage).Sound := by
  obtain ⟨hcmem, hcticket⟩ := mem_of_claim? hc
  -- Whoever has a mutex for its own after the move had it before, or is the claim that moved.
  have hold : ∀ d ∈ t.claims, d.ticket ≠ ticket → d.mutex = c.mutex → stage.owns = true →
      d.stage.owns = false ∨ d.ticket = c.ticket := by
    intro d hd _ hm hstage
    cases hdown : d.stage.owns with
    | false => exact Or.inl rfl
    | true =>
      rcases howns hstage with hown | hfree
      · exact Or.inr (h.exclusive d hd c hcmem hm hdown hown)
      · rw [isFree_iff.mp hfree d hd hm] at hdown
        cases hdown
  refine ⟨?_, ?_, h.resources, h.apart, h.made, ?_, ?_⟩
  · have hmap : (t.setStage ticket stage).claims.map (·.ticket) = t.claims.map (·.ticket) := by
      simp only [LockTable.setStage, List.map_map, Function.comp_def, Claim.moved_ticket]
    rw [hmap]
    exact h.tickets
  · intro d' hd'
    obtain ⟨d, hd, rfl⟩ := mem_setStage.mp hd'
    rw [Claim.moved_ticket]
    exact h.given d hd
  · intro d' hd'
    obtain ⟨d, hd, rfl⟩ := mem_setStage.mp hd'
    rw [Claim.moved_id, Claim.moved_mutex]
    exact h.seated d hd
  · intro d' hd' x' hx' hm hdown hxown
    obtain ⟨d, hd, rfl⟩ := mem_setStage.mp hd'
    obtain ⟨x, hx, rfl⟩ := mem_setStage.mp hx'
    rw [Claim.moved_mutex, Claim.moved_mutex] at hm
    rw [Claim.moved_ticket, Claim.moved_ticket]
    by_cases hdt : d.ticket = ticket
    · obtain rfl := h.eq_of_ticket hd hcmem (hdt.trans hcticket.symm)
      by_cases hxt : x.ticket = ticket
      · exact hdt.trans hxt.symm
      · rw [Claim.moved_of_ticket hdt] at hdown
        rw [Claim.moved_of_ne hxt] at hxown
        rcases hold x hx hxt hm.symm hdown with hnone | heq
        · rw [hnone] at hxown
          cases hxown
        · exact heq.symm
    · rw [Claim.moved_of_ne hdt] at hdown
      by_cases hxt : x.ticket = ticket
      · obtain rfl := h.eq_of_ticket hx hcmem (hxt.trans hcticket.symm)
        rw [Claim.moved_of_ticket hxt] at hxown
        rcases hold d hd hdt hm hxown with hnone | heq
        · rw [hnone] at hdown
          cases hdown
        · exact heq
      · rw [Claim.moved_of_ne hxt] at hxown
        exact h.exclusive d hd x hx hm hdown hxown

theorem depart (h : t.Sound) (hc : t.claim? ticket = some c) : (t.depart ticket).Sound := by
  have hsub : (t.depart ticket).claims.Sublist t.claims := by
    rw [depart_claims hc]
    exact List.filter_sublist
  have hmem : ∀ {d}, d ∈ (t.depart ticket).claims → d ∈ t.claims := fun hd => hsub.subset hd
  refine ⟨h.tickets.sublist (hsub.map _), ?_, ?_, ?_, ?_, ?_, ?_⟩
  · rw [depart_fresh]
    exact fun d hd => h.given d (hmem hd)
  · rw [depart_mutexes]
    exact h.resources
  · rw [depart_mutexes]
    exact h.apart
  · rw [depart_mutexes, depart_fresh]
    exact h.made
  · rw [depart_mutexes]
    exact fun d hd => h.seated d (hmem hd)
  · exact fun d hd x hx => h.exclusive d (hmem hd) x (hmem hx)

/-- Eviction keeps a table sound: what goes out of the table is a mutex to which no claim refers. -/
theorem evict (h : t.Sound) (id : String) : (t.evict id).Sound := by
  have hsub : (t.evict id).mutexes.Sublist t.mutexes := by
    rcases evict_mutexes t id with hsame | ⟨_, _, _, hout⟩
    · rw [hsame]
    · rw [hout]
      exact List.filter_sublist
  refine ⟨?_, ?_, h.resources.sublist (hsub.map _), h.apart.sublist (hsub.map _), ?_, ?_, ?_⟩
  · rw [evict_claims]
    exact h.tickets
  · rw [evict_claims, evict_fresh]
    exact h.given
  · rw [evict_fresh]
    exact fun e he => h.made e (hsub.subset he)
  · rw [evict_claims]
    intro c hc
    rcases evict_mutexes t id with hsame | ⟨m, hm, hidle, hout⟩
    · rw [hsame]
      exact h.seated c hc
    · have hne : c.id ≠ id := by
        rintro rfl
        exact hidle c hc (Option.some.inj ((h.seated c hc).symm.trans hm))
      rw [hout, lookup_filter_ne hne]
      exact h.seated c hc
  · rw [evict_claims]
    exact h.exclusive

theorem lookBack (h : t.Sound) (id : String) : (t.lookBack id).Sound := by
  have hs : { t with lookbacks := t.lookbacks.erase id }.Sound :=
    ⟨h.tickets, h.given, h.resources, h.apart, h.made, h.seated, h.exclusive⟩
  exact hs.evict id

theorem next (h : t.Sound) (he : t.next? e = some u) : u.Sound := by
  rcases next?_cases he with ⟨id, patience, -, rfl⟩ | ⟨_, c, _, -, hc, howns, -, rfl⟩ |
    ⟨_, c, -, hc, -, rfl⟩ | ⟨id, -, -, rfl⟩
  · exact h.arrive id patience
  · exact h.setStage hc howns
  · exact h.depart hc
  · exact h.lookBack id

/-- Every course of events keeps a table sound. -/
theorem run (h : t.Sound) {events : List Event} (hrun : t.run? events = some u) : u.Sound :=
  course?_invariant h (fun _ _ _ ht he => ht.next he) hrun

end Sound

/-! ## Claims that do not move -/

theorem claim?_arrive (hs : t.Sound) :
    (t.arrive id patience).2.claim? (t.arrive id patience).1 =
      some ⟨(t.arrive id patience).1, id, (t.mutexFor id).1, patience, .arrived⟩ := by
  rw [(hs.arrive id patience).claim?_eq_some, arrive_claims]
  exact ⟨List.mem_append_right _ List.mem_cons_self, rfl⟩

/-- An event moves no claim but the one that takes it. -/
theorem claim?_next_of_ne (hs : t.Sound) (he : t.next? e = some u) (hne : e.ticket? ≠ some ticket)
    (hc : t.claim? ticket = some c) : u.claim? ticket = some c := by
  obtain ⟨hcmem, hcticket⟩ := mem_of_claim? hc
  rcases next?_cases he with ⟨id, patience, -, rfl⟩ | ⟨k, d, stage, hk, -, -, -, rfl⟩ |
    ⟨k, d, rfl, hd, -, rfl⟩ | ⟨id, -, -, rfl⟩
  · rw [(hs.arrive id patience).claim?_eq_some, arrive_claims]
    exact ⟨List.mem_append_left _ hcmem, hcticket⟩
  · have hother : c.ticket ≠ k := fun heq => hne (by rw [hk, ← heq, hcticket])
    rw [claim?_setStage, hc, Option.map_some, Claim.moved_of_ne hother]
  · have hother : c.ticket ≠ k := fun heq => hne (by rw [← hcticket, heq]; rfl)
    rw [(hs.depart hd).claim?_eq_some, depart_claims hd]
    exact ⟨List.mem_filter.mpr ⟨hcmem, decide_eq_true hother⟩, hcticket⟩
  · rw [(hs.lookBack id).claim?_eq_some, lookBack, evict_claims]
    exact ⟨hcmem, hcticket⟩

/-- A claim that does not quit stays, and keeps the mutex if it holds it. -/
theorem claim?_next_of_stays (hs : t.Sound) (he : t.next? e = some u)
    (hquit : e.quitter? ≠ some ticket) (hc : t.claim? ticket = some c)
    (hstays : c.stage.isLeaving = false) :
    ∃ stage, u.claim? ticket = some { c with stage } ∧ stage.isLeaving = false ∧
      (c.stage = .held → stage = .held) := by
  by_cases hticket : e.ticket? = some ticket
  · cases e with
    | arrive | lookBack => cases hticket
    | release | lapse | cancel => exact absurd hticket hquit
    | ask now k =>
      obtain rfl := Option.some.inj hticket
      obtain ⟨⟨d, hd, hplace⟩, rfl⟩ := map_claimAt?_eq_some.mp he
      obtain rfl := Option.some.inj (hc.symm.trans hd)
      have harrived : c.stage = .arrived := of_decide_eq_true hplace
      refine ⟨if t.isFree c.mutex then .held else .waiting (now + c.patience.milliseconds), ?_, ?_,
        fun hheld => nomatch harrived.symm.trans hheld⟩
      · simp only [ask, hc, claim?_setStage_self hc]
      · split <;> rfl
    | hand k =>
      obtain rfl := Option.some.inj hticket
      obtain ⟨d, hd, rfl⟩ := Option.map_eq_some_iff.mp he
      obtain ⟨hd, hplace⟩ := claimAt?_eq_some.mp (Option.filter_eq_some_iff.mp hd).1
      obtain rfl := Option.some.inj (hc.symm.trans hd)
      refine ⟨.handed, ?_, rfl, fun hheld => ?_⟩
      · exact claim?_setStage_self hc
      · rw [hheld] at hplace
        cases hplace
    | resume k =>
      obtain rfl := Option.some.inj hticket
      obtain ⟨⟨d, hd, hplace⟩, rfl⟩ := map_claimAt?_eq_some.mp he
      obtain rfl := Option.some.inj (hc.symm.trans hd)
      have hhanded : c.stage = .handed := of_decide_eq_true hplace
      refine ⟨.held, ?_, rfl, fun _ => rfl⟩
      simp only [resume, hc, hhanded, ↓reduceIte, claim?_setStage_self hc]
    | depart k =>
      obtain rfl := Option.some.inj hticket
      obtain ⟨⟨d, hd, hleaving⟩, -⟩ := map_claimAt?_eq_some.mp he
      obtain rfl := Option.some.inj (hc.symm.trans hd)
      rw [hstays] at hleaving
      cases hleaving
  · exact ⟨c.stage, claim?_next_of_ne hs he hticket hc, hstays, id⟩

/-- A claim that does not quit keeps the mutex that it holds. -/
theorem holds_next (hs : t.Sound) (he : t.next? e = some u) (hquit : e.quitter? ≠ some ticket)
    (h : t.holds ticket = true) : u.holds ticket = true := by
  obtain ⟨c, hc, hheld⟩ := claim?_of_holds h
  obtain ⟨stage, hc', -, hheld'⟩ := claim?_next_of_stays hs he hquit hc (by rw [hheld]; rfl)
  rw [holds, hc']
  exact decide_eq_true (hheld' hheld)

/-- That a ticket has been given out and nobody holds or wants a lock under it any more. -/
def Quit (t : LockTable) (ticket : Nat) : Prop :=
  ticket < t.fresh ∧ ∀ c ∈ t.claims, c.ticket = ticket → c.stage.isLeaving = true

theorem quit_letGo (hs : t.Sound) {b : Bool} (hc : t.claim? ticket = some c) :
    (t.letGo ticket b).Quit ticket := by
  obtain ⟨hmem, rfl⟩ := mem_of_claim? hc
  refine ⟨hs.given c hmem, ?_⟩
  intro d' hd' hk
  obtain ⟨d, hd, rfl⟩ := mem_setStage.mp hd'
  rw [Claim.moved_ticket] at hk
  rw [Claim.moved_of_ticket hk]
  rfl

/-- Whoever quits has quit. -/
theorem quit_of_next (hs : t.Sound) (he : t.next? e = some u) (hquit : e.quitter? = some ticket) :
    u.Quit ticket := by
  cases e with
  | release k | lapse k | cancel k =>
    obtain rfl := Option.some.inj hquit
    obtain ⟨⟨c, hc, -⟩, rfl⟩ := map_claimAt?_eq_some.mp he
    exact quit_letGo hs hc
  | _ => cases hquit

theorem Quit.next (h : t.Quit ticket) (he : t.next? e = some u) : u.Quit ticket := by
  refine ⟨Nat.lt_of_lt_of_le h.1 (fresh_le_next he), ?_⟩
  intro c hc hk
  by_cases hticket : e.ticket? = some ticket
  · -- Nothing but its departure is left to the claim, and then it is gone.
    rcases not_leaving_of_next he hticket with ⟨d, hd, hstays⟩ | rfl
    · obtain ⟨hdmem, hdk⟩ := mem_of_claim? hd
      rw [h.2 d hdmem hdk] at hstays
      cases hstays
    · obtain ⟨⟨d, hd, -⟩, rfl⟩ := map_claimAt?_eq_some.mp he
      rw [depart_claims hd] at hc
      exact absurd hk (of_decide_eq_true (List.mem_filter.mp hc).2)
  · rcases next?_cases he with ⟨id, patience, -, rfl⟩ | ⟨k, d, stage, hother, -, -, -, rfl⟩ |
      ⟨k, d, -, hd, -, rfl⟩ | ⟨id, -, -, rfl⟩
    · rw [arrive_claims] at hc
      rcases List.mem_append.mp hc with hc | hc
      · exact h.2 c hc hk
      · rw [List.mem_singleton.mp hc] at hk
        have hnew : t.fresh ≤ ticket := hk ▸ fresh_le_arrive t id patience
        exact absurd h.1 (Nat.not_lt.mpr hnew)
    · obtain ⟨d, hd, rfl⟩ := mem_setStage.mp hc
      rw [Claim.moved_ticket] at hk
      have hne : d.ticket ≠ k := fun heq => hticket (by rw [hother, ← heq, hk])
      rw [Claim.moved_of_ne hne]
      exact h.2 d hd hk
    · rw [depart_claims hd] at hc
      exact h.2 c (List.mem_filter.mp hc).1 hk
    · rw [lookBack, evict_claims] at hc
      exact h.2 c hc hk

end InletRegistry.LockTable
