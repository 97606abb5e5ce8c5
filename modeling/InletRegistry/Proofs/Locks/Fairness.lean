import InletRegistry.Proofs.Locks.Settling
import Mathlib.Data.List.Induction

/-!
# Waiting is fair

Whatever is asked of a session, its locks are granted in the order in which the acquires came; nobody
waits longer than it said it would; and nobody waits for a lock that nobody has. `Fair` says so of a
session between two steps and of its transcript, on which every acquire and its end are noted.

The order rests on the mutexes, which hand themselves on to whoever asked first, and the bound on the
clock, which does not pass a deadline without the one whose time is up being told.
-/

namespace InletRegistry.Locks

open InletRegistry.Time LockTable

namespace Note

variable {ns : List Note} {n : Note} {w : Waiter} {id : String} {now : Nat} {past rest : List Note}

theorem AllFit.init (h : AllFit (ns ++ [n])) : AllFit ns ∧ n.Fits ns := by
  refine ⟨fun past m rest heq => ?_, h ns n [] rfl⟩
  exact h past m (rest ++ [n]) (by rw [heq, List.append_assoc, List.cons_append])

/-- Nobody comes to an end twice. -/
theorem AllFit.ended_nodup (h : AllFit ns) : (ns.filterMap ended?).Nodup := by
  induction ns using List.reverseRecOn with
  | nil => exact List.nodup_nil
  | append_singleton ns n ih =>
    obtain ⟨hinit, hlast⟩ := h.init
    rw [List.filterMap_append]
    cases n with
    | came =>
      rw [List.filterMap_cons_none rfl, List.filterMap_nil, List.append_nil]
      exact ih hinit
    | granted w | lapsed w | dropped w =>
      have hnew : (ns.filterMap ended? ++ [w.ticket]).Nodup := by
        rw [← List.concat_eq_append]
        exact List.Nodup.concat hlast.1 (ih hinit)
      exact hnew

/-- Tickets are given out in order. -/
theorem AllFit.came_ascending (h : AllFit ns) : (ns.filterMap came?).Pairwise (· < ·) := by
  induction ns using List.reverseRecOn with
  | nil => exact List.Pairwise.nil
  | append_singleton ns n ih =>
    obtain ⟨hinit, hlast⟩ := h.init
    rw [List.filterMap_append]
    cases n with
    | came w id since patience =>
      refine List.pairwise_append.mpr ⟨ih hinit, List.pairwise_singleton _ _, ?_⟩
      intro k hk j hj
      rw [List.mem_singleton.mp (show j ∈ [w.ticket] from hj)]
      exact hlast k hk
    | granted | lapsed | dropped =>
      rw [List.filterMap_cons_none rfl, List.filterMap_nil, List.append_nil]
      exact ih hinit

/-- Whoever is granted a lock came for it, and all who came for it before have come to an end. -/
theorem AllFit.granted (h : AllFit ns) (heq : ns = past ++ .granted w id now :: rest) :
    ∃ before since patience between, past = before ++ .came w id since patience :: between ∧
      (now = since ∨ now < since + patience.milliseconds) ∧
      ∀ v since' patience', .came v id since' patience' ∈ before → v.ticket ∈ past.filterMap ended? := by
  obtain ⟨-, ⟨since, patience, hcame, hintime⟩, hturn⟩ := h past _ rest heq
  obtain ⟨before, between, rfl⟩ := List.append_of_mem hcame
  refine ⟨before, since, patience, between, rfl, hintime, ?_⟩
  intro v since' patience' hv
  have hnew := h before (.came w id since patience) (between ++ .granted w id now :: rest)
    (by rw [heq, List.append_assoc, List.cons_append])
  exact hturn v since' patience' (List.mem_append_left _ hv)
    (hnew v.ticket (List.mem_filterMap.mpr ⟨_, hv, rfl⟩))

end Note

namespace Session

variable {s : Session} {ns : List Note} {id slot : String} {patience : Duration} {b : Bool}

/-! ## Locks that nobody wants -/

/-- Whoever comes for a lock that nobody wants is granted it at once. -/
theorem Settled.holds_join (h : Settled ns s) (hnone : ∀ c ∈ s.table.claims, c.id ≠ id) (slot : String)
    (patience : Duration) (b : Bool) : (s.join id slot patience b).table.holds
      (s.newcomer id slot patience b).ticket = true := by
  have hprompt := h.fit.queue.prompt
  exact (hprompt.release_acquire hnone s.now patience).1

theorem granted_now (s : Session) (k : Nat) (id : String) : (s.granted k id).now = s.now := by
  unfold granted
  split
  · exact tell_now
  · rfl

theorem begin_now (s : Session) (id slot : String) (patience : Duration) (b : Bool) :
    (s.begin id slot patience b).now = s.now := by
  rw [begin_eq]
  split
  · exact granted_now _ _ _
  · rfl

/-- An acquire that is granted at once is answered while the clock stands still. -/
theorem Rest.acquire_at_once (h : Rest ns s) (hnone : ∀ c ∈ s.table.claims, c.id ≠ id) (slot : String)
    (patience : Duration) : (s.take (.acquire id slot patience)).1 = .acquired (.ok id) ∧
      (s.take (.acquire id slot patience)).2.now = s.now := by
  have hreset := h.reset
  obtain ⟨hwaiters, hsaid⟩ := hreset.begin_of_holds id slot patience false
    (hreset.holds_join hnone slot patience false)
  have hback : Back (some (.ok id))
      (begin { s with answer := none, happenings := [] } id slot patience false) := by
    refine ⟨hsaid, ?_⟩
    rw [hwaiters]
    exact h.back
  obtain ⟨-, honward, hanswer⟩ := (hreset.begin id slot patience false).rest hback
  simp only [Session.take, await, awaitFor, hanswer]
  exact ⟨trivial, honward.now.trans (begin_now _ _ _ _ _)⟩

theorem Rest.spawn_at_once (h : Rest ns s) (hnone : ∀ c ∈ s.table.claims, c.id ≠ id) (slot : String)
    (patience : Duration) : ⟨slot, .ok id⟩ ∈ (s.take (.spawn id slot patience)).2.happenings ∧
      (s.take (.spawn id slot patience)).2.now = s.now := by
  have hreset := h.reset
  have hholds := hreset.holds_join hnone slot patience true
  obtain ⟨-, honward, -⟩ := (hreset.begin id slot patience true).rest
    (hreset.back_begin id slot patience)
  refine ⟨?_, honward.now.trans (begin_now _ _ _ _ _)⟩
  rw [(take_told s (.spawn id slot patience)).2, List.append_nil, List.mem_reverse, List.mem_filterMap]
  refine ⟨.granted (newcomer { s with answer := none, happenings := [] } id slot patience true) id s.now,
    ?_, rfl⟩
  rw [takeNotes, beginNotes_eq, if_pos hholds]
  exact List.mem_append_left _ (List.mem_append_right _ List.mem_cons_self)

/-! ## Being answered -/

/-- **Every acquire is answered.** What is answered is what is noted of its end. -/
theorem Rest.answered (h : Rest ns s) (id slot : String) (patience : Duration) :
    ∃ w o, (s.take (.acquire id slot patience)).1 = .acquired o ∧
      .came w id s.now patience ∈ s.takeNotes (.acquire id slot patience) ∧
      ((o = .ok id ∧ ∃ now, .granted w id now ∈ s.takeNotes (.acquire id slot patience)) ∨
        (o = .error (busy id patience) ∧
          ∃ now, .lapsed w id patience now ∈ s.takeNotes (.acquire id slot patience))) := by
  have hreset := h.reset
  have hawaiting := hreset.awaiting rfl id slot patience
  obtain ⟨-, o, hsome, n, hn, htold⟩ := (hreset.begin id slot patience false).await hawaiting
  have hnotes : ns ++ s.takeNotes (.acquire id slot patience) = _ :=
    (List.append_assoc _ _ _).symm.trans
      (congrArg (· ++ awaitNotes _) (List.append_assoc _ _ _).symm)
  have hfits := (h.take (.acquire id slot patience)).kept.fits
  rw [← hnotes] at hn
  have hcame : .came (newcomer { s with answer := none, happenings := [] } id slot patience false) id
      s.now patience ∈ s.takeNotes (.acquire id slot patience) :=
    List.mem_append_left _ (List.mem_append_left _ List.mem_cons_self)
  have hnew := hreset.fresh_le_newcomer id slot patience false
  have hlate : ∀ k, n.ended? = some k → k = (newcomer { s with answer := none, happenings := [] } id slot
      patience false).ticket → n ∈ s.takeNotes (.acquire id slot patience) := by
    intro k hended hk
    rcases List.mem_append.mp hn with hn | hn
    · have hlt := h.kept.lt_of_ended (List.mem_filterMap.mpr ⟨n, hn, hended⟩)
      exact absurd (hk ▸ hnew) (Nat.not_le.mpr hlt)
    · exact hn
  obtain ⟨past, rest, heq⟩ := List.append_of_mem hn
  have hfit := hfits past n rest heq
  have hcame' := List.mem_append_right ns hcame
  have hpast : ∀ m ∈ past, m ∈ ns ++ s.takeNotes (.acquire id slot patience) := by
    intro m hm
    rw [heq]
    exact List.mem_append_left _ hm
  refine ⟨_, o, by simp only [Session.take, hsome], hcame, ?_⟩
  cases n with
  | came | dropped => cases htold
  | granted v id' now =>
    obtain ⟨rfl, rfl⟩ := Prod.mk.inj (Option.some.inj htold)
    obtain ⟨-, ⟨since, patience', hv, -⟩, -⟩ := hfit
    have hsame := Note.came.inj (hfits.came_unique (hpast _ hv) hcame' rfl)
    rw [hsame.2.1] at hlate ⊢
    exact Or.inl ⟨rfl, now, hlate _ rfl rfl⟩
  | lapsed v id' patience' now =>
    obtain ⟨rfl, rfl⟩ := Prod.mk.inj (Option.some.inj htold)
    obtain ⟨-, since, hv, -⟩ := hfit
    have hsame := Note.came.inj (hfits.came_unique (hpast _ hv) hcame' rfl)
    rw [hsame.2.1, hsame.2.2.2] at hlate ⊢
    exact Or.inr ⟨rfl, now, hlate _ rfl rfl⟩

/-! ## Waiting -/

/-- Whoever waits has time left, and waits for a lock that somebody holds whose guard is kept. -/
theorem Rest.waits (h : Rest ns s) {w : Waiter} {since : Nat} (hcame : .came w id since patience ∈ ns)
    (hopen : w.ticket ∉ ns.filterMap Note.ended?) : s.now < since + patience.milliseconds ∧
      ∃ slot k c, s.guards.lookup slot = some k ∧ s.table.claim? k = some c ∧ c.id = id ∧
        c.stage = .held := by
  have hprompt := h.fit.queue.prompt
  have hw := (h.kept.ended w id since patience hcame).resolve_right hopen
  obtain ⟨-, c, hc, hcw, since', hcame', hdeadline, -⟩ := h.kept.came w hw
  obtain ⟨-, rfl, rfl, rfl⟩ := Note.came.inj (h.kept.fits.came_unique hcame' hcame rfl)
  obtain ⟨d, hd, hdw, deadline, hstage⟩ := h.exists_claim hw
  obtain rfl := hprompt.sound.eq_of_ticket hd hc (hdw.trans hcw.symm)
  refine ⟨hdeadline deadline hstage ▸ h.pending d hd deadline hstage, ?_⟩
  obtain ⟨owner, howner, hmutex, howns⟩ := hprompt.owned d hd
  have hheld : owner.stage = .held := by
    cases hplace : owner.stage with
    | held => rfl
    | handed => exact absurd hplace (h.quiet owner howner)
    | _ =>
      rw [hplace] at howns
      cases howns
  obtain ⟨slot, hslot⟩ := h.fit.guarded owner howner hheld
  exact ⟨slot, owner.ticket, owner, hslot, hprompt.sound.claim?_eq_some.mpr ⟨howner, rfl⟩,
    hprompt.sound.id_eq_of_mutex howner hd hmutex, hheld⟩

/-- What it means that a session has been fair so far, and that its next step will be. -/
structure Fair (ns : List Note) (s : Session) : Prop where
  /-- Whoever is granted a lock came for it, and is granted it at once or before its deadline; and all
  who came for it before have been granted it, have lapsed or have been dropped. -/
  inTurn : ∀ past w id now rest, ns = past ++ .granted w id now :: rest →
    ∃ before since patience between, past = before ++ .came w id since patience :: between ∧
      (now = since ∨ now < since + patience.milliseconds) ∧
      ∀ v since' patience', .came v id since' patience' ∈ before →
        v.ticket ∈ past.filterMap Note.ended?
  /-- Whoever lapses has waited as long as it said it would. -/
  lapsed : ∀ w id patience now, .lapsed w id patience now ∈ ns →
    ∃ since, .came w id since patience ∈ ns ∧ since + patience.milliseconds ≤ now
  /-- Nobody comes to an end twice: whoever has lapsed is never granted its lock. -/
  once : (ns.filterMap Note.ended?).Nodup
  /-- No two have the same ticket. -/
  tickets : (ns.filterMap Note.came?).Pairwise (· < ·)
  /-- Whoever has come and has not come to an end has time left, and the lock that it waits for is held
  by one whose guard is kept in a slot. -/
  waits : ∀ w id since patience, .came w id since patience ∈ ns →
    w.ticket ∉ ns.filterMap Note.ended? → s.now < since + patience.milliseconds ∧
      ∃ slot k c, s.guards.lookup slot = some k ∧ s.table.claim? k = some c ∧ c.id = id ∧
        c.stage = .held
  /-- What a step tells is what is noted of it: that a lock is granted, or that it was not to be had in
  time. -/
  told : ∀ step, Told (s.takeNotes step) { s with answer := none, happenings := [] } (s.take step).2
  /-- An acquire is answered, by what is noted of its own end. -/
  answered : ∀ id slot patience, ∃ w o, (s.take (.acquire id slot patience)).1 = .acquired o ∧
    .came w id s.now patience ∈ s.takeNotes (.acquire id slot patience) ∧
    ((o = .ok id ∧ ∃ now, .granted w id now ∈ s.takeNotes (.acquire id slot patience)) ∨
      (o = .error (busy id patience) ∧
        ∃ now, .lapsed w id patience now ∈ s.takeNotes (.acquire id slot patience)))
  /-- A lock that nobody holds and nobody waits for is granted at once, however short the time. -/
  atOnce : ∀ id slot patience, (∀ c ∈ s.table.claims, c.id ≠ id) →
    ((s.take (.acquire id slot patience)).1 = .acquired (.ok id) ∧
      (s.take (.acquire id slot patience)).2.now = s.now) ∧
    (⟨slot, .ok id⟩ ∈ (s.take (.spawn id slot patience)).2.happenings ∧
      (s.take (.spawn id slot patience)).2.now = s.now)

/-- **Waiting is fair.** Whatever steps a session takes, every lock that is passed on goes to the one
that came first of those who still wait for it; whoever is not granted its lock in time is told so once
and never granted it; a lock that nobody wants is granted at once; and whoever waits between two steps
waits for a lock that somebody holds. -/
theorem waiting_is_fair (steps : List Step) : Fair (start.notes steps) (start.after steps) := by
  have hrest : Rest (start.notes steps) (start.after steps) := rest_start.after steps
  have hfits := hrest.kept.fits
  refine ⟨fun past w id now rest heq => hfits.granted heq, ?_, hfits.ended_nodup,
    hfits.came_ascending, fun w id since patience hcame hopen => hrest.waits hcame hopen,
    fun step => take_told _ step, fun id slot patience => hrest.answered id slot patience, ?_⟩
  · intro w id patience now hlapsed
    obtain ⟨past, rest, heq⟩ := List.append_of_mem hlapsed
    obtain ⟨-, since, hcame, hdue⟩ := hfits past _ rest heq
    refine ⟨since, ?_, hdue⟩
    rw [heq]
    exact List.mem_append_left _ hcame
  · intro id slot patience hnone
    exact ⟨hrest.acquire_at_once hnone slot patience, hrest.spawn_at_once hnone slot patience⟩

/-- Two wait for a lock whose holder lets go of it after the time of the first is up. -/
example : (start.notes [.acquire "p" "a" (.ofSeconds 1), .spawn "p" "b" (.ofSeconds 1),
    .spawn "p" "c" (.ofSeconds 9), .advance 1000, .release "a"]).filterMap Note.ended? = [1, 3, 5] := by
  decide +kernel

end Session

end InletRegistry.Locks
