import InletRegistry.Proofs.Locks.Queue
import InletRegistry.Proofs.Locks.Transcript

/-!
# Sessions run

What holds of a session between any two claims that run, and of its transcript. The claims that do not
hold a mutex are those that somebody waits for (`Fit`), and of those the transcript says when they came
and no more (`Kept`).

A claim that comes to hold its mutex is not guarded for a moment: whoever waits for it is told in that
moment, and its guard takes the place of another, which releases the lock of that one. `Due` is what
holds in between.
-/

namespace InletRegistry.Locks

open InletRegistry.Lookup InletRegistry.Time LockTable

namespace Note

/-- That a note may stand after others. -/
def Fits (past : List Note) : Note → Prop
  | came w _ _ _ => ∀ k ∈ past.filterMap came?, k < w.ticket
  | granted w id now => w.ticket ∉ past.filterMap ended? ∧
    (∃ since patience, .came w id since patience ∈ past ∧
      (now = since ∨ now < since + patience.milliseconds)) ∧
    ∀ v since patience, .came v id since patience ∈ past → v.ticket < w.ticket →
      v.ticket ∈ past.filterMap ended?
  | lapsed w id patience now => w.ticket ∉ past.filterMap ended? ∧
    ∃ since, .came w id since patience ∈ past ∧ since + patience.milliseconds ≤ now
  | dropped w => w.ticket ∉ past.filterMap ended? ∧
    ∃ id since patience, .came w id since patience ∈ past

/-- A transcript in which every note may stand after those before it. -/
def AllFit (ns : List Note) : Prop := ∀ past n rest, ns = past ++ n :: rest → n.Fits past

theorem AllFit.nil : AllFit [] := by
  intro past n rest h
  cases past <;> cases h

theorem AllFit.concat {ns : List Note} {n : Note} (h : AllFit ns) (hn : n.Fits ns) :
    AllFit (ns ++ [n]) := by
  intro past m rest heq
  rcases List.eq_nil_or_concat rest with rfl | ⟨rest, last, rfl⟩
  · obtain ⟨rfl, hlast⟩ := List.append_inj' heq rfl
    obtain rfl := List.head_eq_of_cons_eq hlast
    exact hn
  · rw [List.concat_eq_append, ← List.cons_append, ← List.append_assoc] at heq
    exact h past m rest (List.append_inj' heq rfl).1

/-- No ticket comes twice. -/
theorem AllFit.came_unique {ns : List Note} (h : AllFit ns) {v w : Waiter} {id id' : String}
    {since since' : Nat} {patience patience' : Duration} (hv : .came v id since patience ∈ ns)
    (hw : .came w id' since' patience' ∈ ns) (hticket : v.ticket = w.ticket) :
    Note.came v id since patience = .came w id' since' patience' := by
  obtain ⟨past, rest, rfl⟩ := List.append_of_mem hv
  have hfirst := h past _ rest rfl
  rcases List.mem_append.mp hw with hbefore | hbehind
  · have hlt := hfirst w.ticket (List.mem_filterMap.mpr ⟨_, hbefore, rfl⟩)
    omega
  · rcases List.mem_cons.mp hbehind with hsame | hlater
    · exact hsame.symm
    · obtain ⟨between, last, rfl⟩ := List.append_of_mem hlater
      have hsecond := h (past ++ .came v id since patience :: between)
        (.came w id' since' patience') last (by rw [List.append_assoc, List.cons_append])
      have hin : came v id since patience ∈ past ++ .came v id since patience :: between :=
        List.mem_append_right _ List.mem_cons_self
      have hlt := hsecond v.ticket (List.mem_filterMap.mpr ⟨_, hin, rfl⟩)
      omega

/-- Whoever has come to an end has come before. -/
theorem AllFit.came_of_ended {ns : List Note} (h : AllFit ns) {k : Nat}
    (hk : k ∈ ns.filterMap ended?) : ∃ past n rest w id since patience, ns = past ++ n :: rest ∧
      n.ended? = some k ∧ w.ticket = k ∧ .came w id since patience ∈ past := by
  obtain ⟨n, hn, hended⟩ := List.mem_filterMap.mp hk
  obtain ⟨past, rest, rfl⟩ := List.append_of_mem hn
  have hfits := h past n rest rfl
  cases n with
  | came => cases hended
  | granted w id now =>
    obtain ⟨-, ⟨since, patience, hcame, -⟩, -⟩ := hfits
    exact ⟨past, _, rest, w, id, since, patience, rfl, hended, Option.some.inj hended, hcame⟩
  | lapsed w id patience now =>
    obtain ⟨-, since, hcame, -⟩ := hfits
    exact ⟨past, _, rest, w, id, since, patience, rfl, hended, Option.some.inj hended, hcame⟩
  | dropped w =>
    obtain ⟨-, id, since, patience, hcame⟩ := hfits
    exact ⟨past, _, rest, w, id, since, patience, rfl, hended, Option.some.inj hended, hcame⟩

end Note

namespace Session

variable {s s' : Session} {ns : List Note} {k : Nat} {c : Claim} {w : Waiter} {o : Outcome}
  {id slot : String}

/-! ## Between two claims that run -/

/-- What holds of a session between any two claims that run. -/
structure Fit (s : Session) : Prop where
  queue : s.table.Queue
  /-- Somebody waits for every claim that does not hold its mutex, and for no other. -/
  waiters : ∀ k, k ∈ s.table.unheld ↔ ∃ w ∈ s.waiters, w.ticket = k
  apart : (s.waiters.map Waiter.ticket).Nodup
  /-- Every claim that holds its mutex has a guard in some slot. -/
  guarded : ∀ c ∈ s.table.claims, c.stage = .held → ∃ slot, s.guards.lookup slot = some c.ticket
  /-- No guard is of a claim that does not hold its mutex. -/
  guards : ∀ slot k, s.guards.lookup slot = some k → k < s.table.fresh ∧ k ∉ s.table.unheld
  /-- While a claim is about to run that has been handed its mutex, the time of no other is up. -/
  calm : (∃ c ∈ s.table.claims, c.stage = .handed) →
    ∀ c ∈ s.table.claims, ∀ deadline, c.stage = .waiting deadline → s.now < deadline

/-- What holds of a session in the moment in which a claim has come to hold its mutex. -/
structure Due (k : Nat) (s : Session) : Prop where
  queue : s.table.Queue
  holds : ∃ c, s.table.claim? k = some c ∧ c.stage = .held
  waiters : ∀ j, j ∈ s.table.unheld ∨ j = k ↔ ∃ w ∈ s.waiters, w.ticket = j
  apart : (s.waiters.map Waiter.ticket).Nodup
  guarded : ∀ c ∈ s.table.claims, c.stage = .held → c.ticket ≠ k →
    ∃ slot, s.guards.lookup slot = some c.ticket
  guards : ∀ slot j, s.guards.lookup slot = some j →
    j < s.table.fresh ∧ j ∉ s.table.unheld ∧ j ≠ k
  /-- No other claim could run. -/
  quiet : ∀ c ∈ s.table.claims, c.stage ≠ .handed
  calm : ∀ c ∈ s.table.claims, ∀ deadline, c.stage = .waiting deadline → s.now < deadline

/-- What a transcript says of those who wait, and of those who have ever come. -/
structure Kept (ns : List Note) (s : Session) : Prop where
  fits : Note.AllFit ns
  /-- Tickets that have come have been given out. -/
  given : ∀ k ∈ ns.filterMap Note.came?, k < s.table.fresh
  /-- Of those who wait it says when they came and no more; and whoever has been handed its mutex was
  in time for it. -/
  came : ∀ w ∈ s.waiters, w.ticket ∉ ns.filterMap Note.ended? ∧
    ∃ c ∈ s.table.claims, c.ticket = w.ticket ∧ ∃ since,
      .came w c.id since c.patience ∈ ns ∧
      (∀ deadline, c.stage = .waiting deadline → deadline = since + c.patience.milliseconds) ∧
      (c.stage.waits = false → s.now = since ∨ s.now < since + c.patience.milliseconds)
  /-- Whoever has come waits, or its end has been noted. -/
  ended : ∀ w id since patience, .came w id since patience ∈ ns →
    w ∈ s.waiters ∨ w.ticket ∈ ns.filterMap Note.ended?

/-- Tickets that have come to an end have been given out. -/
theorem Kept.lt_of_ended (h : Kept ns s) (hk : k ∈ ns.filterMap Note.ended?) : k < s.table.fresh := by
  obtain ⟨past, n, rest, w, id, since, patience, rfl, -, rfl, hcame⟩ := h.fits.came_of_ended hk
  refine h.given w.ticket (List.mem_filterMap.mpr ⟨_, List.mem_append_left _ hcame, rfl⟩)

/-! ## Being told -/

@[simp] theorem tell_now : (s.tell w o).now = s.now := by
  unfold tell
  split <;> rfl

@[simp] theorem tell_guards : (s.tell w o).guards = s.guards := by
  unfold tell
  split <;> rfl

@[simp] theorem tell_waiters :
    (s.tell w o).waiters = s.waiters.filter (·.ticket ≠ w.ticket) := by
  unfold tell
  split <;> rfl

theorem find?_waiter (h : (s.waiters.map Waiter.ticket).Nodup) (hw : w ∈ s.waiters) :
    s.waiters.find? (·.ticket = w.ticket) = some w := by
  cases hfound : s.waiters.find? (·.ticket = w.ticket) with
  | none =>
    have := List.find?_eq_none.mp hfound w hw
    simp at this
  | some v =>
    have hv := List.mem_of_find?_eq_some hfound
    have hticket := of_decide_eq_true
      (List.find?_some (p := fun v : Waiter => decide (v.ticket = w.ticket)) hfound)
    rw [List.inj_on_of_nodup_map h hv hw hticket]

/-- Once one is told, the others wait on. -/
theorem mem_filter_waiters (h : (s.waiters.map Waiter.ticket).Nodup) {v : Waiter} (hv : v ∈ s.waiters)
    (hw : w ∈ s.waiters) (hne : v ≠ w) : v ∈ s.waiters.filter (·.ticket ≠ w.ticket) :=
  List.mem_filter.mpr ⟨hv, decide_eq_true fun heq => hne (List.inj_on_of_nodup_map h hv hw heq)⟩

theorem exists_filter_waiters {j : Nat} :
    (∃ v ∈ s.waiters.filter (·.ticket ≠ k), v.ticket = j) ↔
      (∃ v ∈ s.waiters, v.ticket = j) ∧ j ≠ k := by
  constructor
  · rintro ⟨v, hv, rfl⟩
    obtain ⟨hv, hne⟩ := List.mem_filter.mp hv
    exact ⟨⟨v, hv, rfl⟩, of_decide_eq_true hne⟩
  · rintro ⟨⟨v, hv, rfl⟩, hne⟩
    exact ⟨v, List.mem_filter.mpr ⟨hv, decide_eq_true hne⟩, rfl⟩

theorem nodup_filter_waiters (h : (s.waiters.map Waiter.ticket).Nodup) (p : Waiter → Bool) :
    ((s.waiters.filter p).map Waiter.ticket).Nodup :=
  h.sublist (List.filter_sublist.map _)

/-! ## Keeping the transcript -/

namespace Kept

/-- A transcript is kept as long as every claim that somebody waits for is there, and is handed its
mutex in time if it is. -/
theorem table (h : Kept ns s) (hwaiters : s'.waiters = s.waiters) (hnow : s'.now = s.now)
    (hfresh : s.table.fresh ≤ s'.table.fresh)
    (hclaims : ∀ w ∈ s.waiters, ∀ c ∈ s.table.claims, c.ticket = w.ticket →
      ∃ d ∈ s'.table.claims, d.ticket = c.ticket ∧ d.id = c.id ∧ d.patience = c.patience ∧
        (∀ deadline, d.stage = .waiting deadline → c.stage = .waiting deadline) ∧
        (d.stage.waits = false → c.stage.waits = false ∨
          ∀ deadline, c.stage = .waiting deadline → s.now < deadline)) : Kept ns s' := by
  refine ⟨h.fits, fun k hk => Nat.lt_of_lt_of_le (h.given k hk) hfresh, ?_, ?_⟩
  · intro w hw
    rw [hwaiters] at hw
    obtain ⟨hopen, c, hc, hcw, since, hcame, hdeadline, hhanded⟩ := h.came w hw
    obtain ⟨d, hd, hdc, hid, hpatience, hwaiting, hran⟩ := hclaims w hw c hc hcw
    refine ⟨hopen, d, hd, hdc.trans hcw, since, ?_, ?_, ?_⟩
    · rw [hid, hpatience]
      exact hcame
    · intro deadline hstage
      rw [hpatience]
      exact hdeadline deadline (hwaiting deadline hstage)
    · intro hstage
      rw [hpatience, hnow]
      rcases hran hstage with hbefore | hintime
      · exact hhanded hbefore
      · cases hcstage : c.stage with
        | waiting deadline =>
          refine Or.inr ?_
          rw [← hdeadline deadline hcstage]
          exact hintime deadline hcstage
        | _ => exact hhanded (by rw [hcstage]; rfl)
  · intro w id since patience hcame
    rw [hwaiters]
    exact h.ended w id since patience hcame

/-- A transcript is kept when one who waits is told, and that is noted. -/
theorem tell {n : Note} (h : Kept ns s) (hn : n.Fits ns) (hended : n.ended? = some w.ticket)
    (hcame : n.came? = none) (hwaiters : s'.waiters = s.waiters.filter (·.ticket ≠ w.ticket))
    (hnow : s'.now = s.now) (htable : s'.table = s.table) : Kept (ns ++ [n]) s' := by
  have hold : (ns ++ [n]).filterMap Note.came? = ns.filterMap Note.came? := by
    rw [List.filterMap_append, List.filterMap_cons_none hcame, List.filterMap_nil, List.append_nil]
  have hnew : (ns ++ [n]).filterMap Note.ended? = ns.filterMap Note.ended? ++ [w.ticket] := by
    rw [List.filterMap_append, List.filterMap_cons_some hended, List.filterMap_nil]
  refine ⟨h.fits.concat hn, ?_, ?_, ?_⟩
  · rw [hold, htable]
    exact h.given
  · intro v hv
    rw [hwaiters] at hv
    obtain ⟨hv, hne⟩ := List.mem_filter.mp hv
    obtain ⟨hopen, c, hc, hcv, since, hin, hrest⟩ := h.came v hv
    refine ⟨?_, c, htable ▸ hc, hcv, since, List.mem_append_left _ hin, ?_⟩
    · rw [hnew, List.mem_append, List.mem_singleton]
      rintro (hbefore | heq)
      · exact hopen hbefore
      · exact of_decide_eq_true hne heq
    · rw [hnow]
      exact hrest
  · intro v id since patience hin
    rw [hnew, hwaiters]
    have hin : .came v id since patience ∈ ns := by
      rcases List.mem_append.mp hin with hin | hlast
      · exact hin
      · rw [← List.mem_singleton.mp hlast] at hcame
        cases hcame
    rcases h.ended v id since patience hin with hwaits | hbefore
    · by_cases hvw : v.ticket = w.ticket
      · exact Or.inr (List.mem_append_right _ (List.mem_singleton.mpr hvw))
      · exact Or.inl (List.mem_filter.mpr ⟨hwaits, decide_eq_true hvw⟩)
    · exact Or.inr (List.mem_append_left _ hbefore)

/-- **Nobody is passed over.** Whoever holds a lock may be granted it: all who came for it before have
come to an end. -/
theorem granted_fits (h : Kept ns s) (hqueue : s.table.Queue) (hw : w ∈ s.waiters)
    (hc : s.table.claim? w.ticket = some c) (hheld : c.stage = .held) :
    (Note.granted w c.id s.now).Fits ns := by
  obtain ⟨hcmem, hcw⟩ := mem_of_claim? hc
  obtain ⟨hopen, c', hc', hcw', since, hcame, -, hran⟩ := h.came w hw
  obtain rfl := hqueue.prompt.sound.eq_of_ticket hc' hcmem (hcw'.trans hcw.symm)
  refine ⟨hopen, ⟨since, _, hcame, hran (by rw [hheld]; rfl)⟩, ?_⟩
  intro v since' patience hv hlt
  rcases h.ended v c'.id since' patience hv with hwaits | hended
  · obtain ⟨-, d, hd, hdv, since'', hcame', -⟩ := h.came v hwaits
    have hid : c'.id = d.id := by
      have hsame := h.fits.came_unique hv hcame' rfl
      simp only [Note.came.injEq, true_and] at hsame
      exact hsame.1
    have hle := hqueue.first c' hcmem d hd hid (by rw [hheld]; rfl)
    omega
  · exact hended

end Kept

/-! ## One claim runs -/

/-- A claim that has been handed its mutex runs and is about to be granted. -/
theorem Fit.due (h : s.Fit) (hc : s.table.claim? k = some c) (hhanded : c.stage = .handed) :
    Due k { s with table := s.table.resume k } := by
  obtain ⟨hcmem, hck⟩ := mem_of_claim? hc
  obtain ⟨hresume, hheld⟩ := resume_of_handed hc hhanded
  have hunheld : (s.table.resume k).unheld = s.table.unheld.filter (· ≠ k) := by
    rw [hresume, unheld_setStage_held]
  have hk : k ∈ s.table.unheld := mem_unheld.mpr ⟨c, hcmem, hck, by rw [hhanded]; exact nofun⟩
  have horigin : ∀ d' ∈ (s.table.resume k).claims, d'.ticket ≠ k → d' ∈ s.table.claims := by
    intro d' hd' hne
    rw [hresume] at hd'
    obtain ⟨d, hd, rfl⟩ := mem_setStage.mp hd'
    rw [Claim.moved_ticket] at hne
    rw [Claim.moved_of_ne hne]
    exact hd
  have hnot : ∀ d ∈ (s.table.resume k).claims, d.stage ≠ .held → d.ticket ≠ k := by
    rintro d hd hstage rfl
    obtain ⟨hmem, hticket⟩ := mem_of_claim? hheld
    obtain rfl := (h.queue.resume hc hhanded).prompt.sound.eq_of_ticket hd hmem hticket.symm
    exact hstage rfl
  refine ⟨h.queue.resume hc hhanded, ⟨_, hheld, rfl⟩, ?_, h.apart, ?_, ?_, ?_, ?_⟩
  · intro j
    rw [← h.waiters j, hunheld, List.mem_filter]
    constructor
    · rintro (⟨hj, -⟩ | rfl)
      · exact hj
      · exact hk
    · intro hj
      by_cases hjk : j = k
      · exact Or.inr hjk
      · exact Or.inl ⟨hj, decide_eq_true hjk⟩
  · intro d hd hstage hne
    exact h.guarded d (horigin d hd hne) hstage
  · intro slot j hj
    obtain ⟨hlt, hnone⟩ := h.guards slot j hj
    refine ⟨?_, ?_, ?_⟩
    · show j < (s.table.resume k).fresh
      rw [hresume]
      exact hlt
    · rw [hunheld]
      exact fun hin => hnone (List.mem_filter.mp hin).1
    · rintro rfl
      exact hnone hk
  · intro d hd hstage
    have hne := hnot d hd (by rw [hstage]; exact nofun)
    exact hne ((h.queue.prompt.single d (horigin d hd hne) c hcmem hstage hhanded).trans hck)
  · intro d hd deadline hstage
    exact h.calm ⟨c, hcmem, hhanded⟩ d (horigin d hd (hnot d hd (by rw [hstage]; exact nofun))) deadline
      hstage

theorem Kept.resume (h : Kept ns s) (hs : s.table.Sound) (hc : s.table.claim? k = some c)
    (hhanded : c.stage = .handed) : Kept ns { s with table := s.table.resume k } := by
  obtain ⟨hcmem, hck⟩ := mem_of_claim? hc
  have hresume := (resume_of_handed hc hhanded).1
  refine h.table rfl rfl (by rw [hresume]; exact Nat.le_refl _) ?_
  intro w _ d hd _
  refine ⟨d.moved k .held, ?_, Claim.moved_ticket, Claim.moved_id, ?_, ?_, ?_⟩
  · show _ ∈ (s.table.resume k).claims
    rw [hresume]
    exact mem_setStage.mpr ⟨d, hd, rfl⟩
  · unfold Claim.moved
    split <;> rfl
  · intro deadline hstage
    by_cases hdk : d.ticket = k
    · rw [Claim.moved_of_ticket hdk] at hstage
      cases hstage
    · rwa [Claim.moved_of_ne hdk] at hstage
  · intro hstage
    by_cases hdk : d.ticket = k
    · obtain rfl := hs.eq_of_ticket hd hcmem (hdk.trans hck.symm)
      exact Or.inl (by rw [hhanded]; rfl)
    · rw [Claim.moved_of_ne hdk] at hstage
      exact Or.inl hstage

/-- A guard that takes the place of another releases the lock of that one. -/
theorem putGuard_passed (hqueue : s.table.Queue) (hquiet : ∀ c ∈ s.table.claims, c.stage ≠ .handed)
    (slot : String) (k : Nat) :
    Passed (s.guards.lookup slot) s.table (s.putGuard slot k).table := by
  unfold putGuard
  cases s.guards.lookup slot with
  | none => exact Passed.refl hqueue
  | some old => exact hqueue.release hquiet old

/-- The claims that somebody waits for stand where they stood when another is released, but for the next
in line. -/
theorem Kept.passed {old : Option Nat} (h : Kept ns s) (hs : s.table.Sound)
    (hpassed : Passed old s.table s'.table) (hwaiters : s'.waiters = s.waiters)
    (hnow : s'.now = s.now)
    (hkept : ∀ w ∈ s.waiters, w.ticket ∈ s.table.unheld ∨ old ≠ some w.ticket ∧
      ∀ c ∈ s.table.claims, c.ticket = w.ticket → c.stage = .held)
    (hcalm : ∀ c ∈ s.table.claims, ∀ deadline, c.stage = .waiting deadline → s.now < deadline) :
    Kept ns s' := by
  refine h.table hwaiters hnow (Nat.le_of_eq hpassed.fresh.symm) ?_
  intro w hw c hc hcw
  have hstays : c.ticket ∈ s.table.unheld ∨ c.stage = .held ∧ old ≠ some c.ticket := by
    rw [hcw]
    rcases hkept w hw with hunheld | ⟨hne, hheld⟩
    · exact Or.inl hunheld
    · exact Or.inr ⟨hheld c hc hcw, hne⟩
  obtain ⟨d, hd, rfl | ⟨hwaits, rfl⟩⟩ := hpassed.exists_claim hs hc hstays
  · exact ⟨d, hd, rfl, rfl, rfl, fun _ hstage => hstage, fun hstage => Or.inl hstage⟩
  · exact ⟨_, hd, rfl, rfl, rfl, nofun, fun _ => Or.inr fun deadline => hcalm c hc deadline⟩

/-- What becomes of a session when a claim that holds its mutex is granted. -/
theorem Due.granted_eq (h : Due k s) (id : String) : ∃ w ∈ s.waiters, w.ticket = k ∧
    s.grantNotes k id = [.granted w id s.now] ∧
    s.granted k id = (s.putGuard w.slot k).tell w (.ok id) := by
  obtain ⟨w, hw, rfl⟩ := (h.waiters k).mp (Or.inr rfl)
  have hfound := find?_waiter h.apart hw
  refine ⟨w, hw, rfl, ?_, ?_⟩
  · simp only [grantNotes, hfound]
  · simp only [Session.granted, hfound]

theorem Due.granted (h : Due k s) (id : String) : (s.granted k id).Fit := by
  obtain ⟨w, hw, rfl, -, heq⟩ := h.granted_eq id
  have hpassed := putGuard_passed h.queue h.quiet w.slot w.ticket
  rw [heq]
  refine ⟨?_, ?_, ?_, ?_, ?_, ?_⟩
  · rw [tell_table]
    exact hpassed.queue
  · intro j
    rw [tell_table, hpassed.unheld, tell_waiters]
    show _ ↔ ∃ v ∈ s.waiters.filter (·.ticket ≠ w.ticket), v.ticket = j
    rw [exists_filter_waiters, ← h.waiters j]
    constructor
    · intro hj
      refine ⟨Or.inl hj, ?_⟩
      rintro rfl
      obtain ⟨c, hc, hheld⟩ := h.holds
      exact h.queue.prompt.sound.not_mem_unheld hc hheld hj
    · rintro ⟨hj | rfl, hne⟩
      · exact hj
      · exact absurd rfl hne
  · rw [tell_waiters]
    exact nodup_filter_waiters h.apart _
  · intro c hc hheld
    rw [tell_table] at hc
    rw [tell_guards]
    by_cases hcw : c.ticket = w.ticket
    · exact ⟨w.slot, hcw ▸ List.lookup_cons_self⟩
    · obtain ⟨slot, hslot⟩ := h.guarded c (hpassed.mem_of_held hc hheld) hheld hcw
      have hne : slot ≠ w.slot := by
        rintro rfl
        exact hpassed.gone c hc hheld hslot
      refine ⟨slot, ?_⟩
      show ((w.slot, w.ticket) :: s.guards.filter (·.1 ≠ w.slot)).lookup slot = _
      rw [List.lookup_cons, beq_eq_false_iff_ne.mpr hne, lookup_filter_ne hne]
      exact hslot
  · intro slot j hj
    rw [tell_table, hpassed.unheld, hpassed.fresh]
    rw [tell_guards] at hj
    obtain ⟨c, hc, hheld⟩ := h.holds
    by_cases hslot : slot = w.slot
    · subst hslot
      obtain rfl : w.ticket = j := Option.some.inj (List.lookup_cons_self.symm.trans hj)
      obtain ⟨hcmem, hck⟩ := mem_of_claim? hc
      exact ⟨hck ▸ h.queue.prompt.sound.given c hcmem,
        h.queue.prompt.sound.not_mem_unheld hc hheld⟩
    · have hold : s.guards.lookup slot = some j := by
        rw [← hj]
        show _ = ((w.slot, w.ticket) :: s.guards.filter (·.1 ≠ w.slot)).lookup slot
        rw [List.lookup_cons, beq_eq_false_iff_ne.mpr hslot, lookup_filter_ne hslot]
      obtain ⟨hlt, hnone, -⟩ := h.guards slot j hold
      exact ⟨hlt, hnone⟩
  · intro _ c hc deadline hstage
    rw [tell_table] at hc
    rw [tell_now]
    exact h.calm c (hpassed.mem_of_waits hc (by rw [hstage]; rfl)) deadline hstage

theorem Due.kept (h : Due k s) (hkept : Kept ns s) (hc : s.table.claim? k = some c)
    (hheld : c.stage = .held) :
    Kept (ns ++ s.grantNotes k c.id) (s.granted k c.id) := by
  obtain ⟨w, hw, rfl, hnotes, heq⟩ := h.granted_eq c.id
  have hpassed := putGuard_passed h.queue h.quiet w.slot w.ticket
  have hput : Kept ns (s.putGuard w.slot w.ticket) := by
    refine hkept.passed h.queue.prompt.sound hpassed rfl rfl ?_ h.calm
    intro v hv
    rcases (h.waiters v.ticket).mpr ⟨v, hv, rfl⟩ with hunheld | hvw
    · exact Or.inl hunheld
    · refine Or.inr ⟨?_, ?_⟩
      · intro hslot
        exact (h.guards _ _ hslot).2.2 hvw
      · intro d hd hdv
        obtain ⟨hcmem, hcw⟩ := mem_of_claim? hc
        rw [h.queue.prompt.sound.eq_of_ticket hd hcmem (hdv.trans (hvw.trans hcw.symm))]
        exact hheld
  rw [hnotes, heq]
  exact hput.tell (hkept.granted_fits h.queue hw hc hheld) rfl rfl tell_waiters tell_now (tell_table _ _)

/-- A claim that waits goes, and nobody waits for it any more. -/
theorem Fit.quit (h : s.Fit) (hc : s.table.claim? k = some c) (hwaits : c.stage.waits = true)
    (hquiet : ∀ d ∈ s.table.claims, d.stage ≠ .handed) (htable : s'.table = s.table.without k)
    (hwaiters : s'.waiters = s.waiters.filter (·.ticket ≠ k)) (hguards : s'.guards = s.guards) :
    s'.Fit := by
  refine ⟨?_, ?_, ?_, ?_, ?_, ?_⟩
  · rw [htable]
    exact h.queue.without hc hwaits
  · intro j
    rw [htable, hwaiters, exists_filter_waiters, ← h.waiters j, unheld_without, List.mem_filter,
      decide_eq_true_eq]
  · rw [hwaiters]
    exact nodup_filter_waiters h.apart _
  · intro d hd hheld
    rw [htable] at hd
    rw [hguards]
    exact h.guarded d (mem_without.mp hd).1 hheld
  · intro slot j hj
    rw [hguards] at hj
    rw [htable, unheld_without]
    exact ⟨(h.guards slot j hj).1, fun hin => (h.guards slot j hj).2 (List.mem_filter.mp hin).1⟩
  · rintro ⟨d, hd, hhanded⟩
    rw [htable] at hd
    exact absurd hhanded (hquiet d (mem_without.mp hd).1)

theorem Kept.quit {n : Note} (h : Kept ns s) (hn : n.Fits ns) (hended : n.ended? = some k)
    (hcame : n.came? = none) (htable : s'.table = s.table.without k)
    (hwaiters : s'.waiters = s.waiters.filter (·.ticket ≠ k)) (hnow : s'.now = s.now) :
    Kept (ns ++ [n]) s' := by
  have htold : Kept (ns ++ [n]) { s with waiters := s.waiters.filter (·.ticket ≠ k) } :=
    h.tell (w := ⟨k, "", true⟩) hn hended hcame rfl rfl rfl
  refine htold.table hwaiters hnow (by rw [htable]; exact Nat.le_refl _) ?_
  intro w hw d hd hdw
  have hne : d.ticket ≠ k := by
    rw [hdw]
    exact of_decide_eq_true (List.mem_filter.mp hw).2
  refine ⟨d, ?_, rfl, rfl, rfl, fun _ hstage => hstage, fun hstage => Or.inl hstage⟩
  rw [htable]
  exact mem_without.mpr ⟨hd, hne⟩

/-- A claim whose deadline has come lapses. -/
theorem Kept.lapsed_fits (h : Kept ns s) (hqueue : s.table.Queue) (hw : w ∈ s.waiters)
    (hc : s.table.claim? w.ticket = some c) {deadline : Nat} (hstage : c.stage = .waiting deadline)
    (hdue : deadline ≤ s.now) : (Note.lapsed w c.id c.patience s.now).Fits ns := by
  obtain ⟨hcmem, hcw⟩ := mem_of_claim? hc
  obtain ⟨hopen, c', hc', hcw', since, hcame, hdeadline, -⟩ := h.came w hw
  obtain rfl := hqueue.prompt.sound.eq_of_ticket hc' hcmem (hcw'.trans hcw.symm)
  refine ⟨hopen, since, hcame, ?_⟩
  rw [← hdeadline deadline hstage]
  exact hdue

/-! ## Claims run until none can -/

/-- What holds of a session and its transcript between any two claims that run. -/
structure Run (ns : List Note) (s : Session) : Prop where
  fit : s.Fit
  kept : Kept ns s

/-- How a session goes on while its clock stands still and nobody comes. -/
structure Onward (s s' : Session) : Prop where
  now : s'.now = s.now
  waiters : s'.waiters.Sublist s.waiters
  /-- Whoever waits has waited before. -/
  waits : ∀ c ∈ s'.table.claims, c.stage.waits = true → c ∈ s.table.claims

theorem Onward.refl (s : Session) : Onward s s := ⟨rfl, List.Sublist.refl _, fun _ hc _ => hc⟩

theorem Onward.trans {s'' : Session} (h : Onward s s') (h' : Onward s' s'') : Onward s s'' :=
  ⟨h'.now.trans h.now, h'.waiters.trans h.waiters,
    fun c hc hwaits => h.waits c (h'.waits c hc hwaits) hwaits⟩

/-- That one who waits for a claim is told what has become of it, and that this is noted. -/
structure Ends (s s' : Session) (w : Waiter) (c : Claim) : Prop where
  waiter : w ∈ s.waiters
  claim : c ∈ s.table.claims
  ticket : c.ticket = w.ticket
  notes : s.runOneNotes = [.granted w c.id s.now] ∨
    s.runOneNotes = [.lapsed w c.id c.patience s.now]
  waiters : s'.waiters = s.waiters.filter (·.ticket ≠ w.ticket)

/-- A claim that has been handed its mutex runs, and is granted. -/
theorem Run.grant (h : Run ns s) (hhanded : s.table.handed? = some c) (hrun : s.runOne? = some s') :
    Run (ns ++ s.runOneNotes) s' ∧ Onward s s' ∧ ∃ w c, Ends s s' w c := by
  have hsound := h.fit.queue.prompt.sound
  simp only [Session.runOne?, hhanded] at hrun
  obtain rfl := Option.some.inj hrun
  obtain ⟨hc, hstage⟩ := claim?_of_handed? hsound hhanded
  have hdue := h.fit.due hc hstage
  have hkept := h.kept.resume hsound hc hstage
  have hnotes : s.runOneNotes = s.grantNotes c.ticket c.id := by
    simp only [runOneNotes, hhanded]
  obtain ⟨w, hw, hwc, hgrant, heq⟩ := hdue.granted_eq c.id
  have hpassed := putGuard_passed hdue.queue hdue.quiet w.slot c.ticket
  refine ⟨⟨hdue.granted c.id, ?_⟩, ?_, w, c, hw, (mem_of_claim? hc).1, hwc.symm, ?_, ?_⟩
  · rw [hnotes]
    exact hdue.kept (c := { c with stage := .held }) hkept (resume_of_handed hc hstage).2 rfl
  · rw [heq]
    refine ⟨tell_now, ?_, ?_⟩
    · rw [tell_waiters]
      exact List.filter_sublist
    · intro d hd hwaits
      rw [tell_table] at hd
      have hd := hpassed.mem_of_waits hd hwaits
      rw [show s.table.resume c.ticket = _ from (resume_of_handed hc hstage).1] at hd
      obtain ⟨e, he, rfl⟩ := mem_setStage.mp hd
      by_cases hec : e.ticket = c.ticket
      · rw [Claim.moved_of_ticket hec] at hwaits
        cases hwaits
      · rw [Claim.moved_of_ne hec]
        exact he
  · exact Or.inl (hnotes.trans hgrant)
  · rw [heq, tell_waiters]
    rfl

/-- Where no claim has been handed its mutex, one whose deadline has come runs, and lapses. -/
theorem Run.lapse (h : Run ns s) (hhanded : s.table.handed? = none)
    (hoverdue : s.table.overdue? s.now = some c) (hrun : s.runOne? = some s') :
    Run (ns ++ s.runOneNotes) s' ∧ Onward s s' ∧ ∃ w c, Ends s s' w c := by
  have hquiet : ∀ d ∈ s.table.claims, d.stage ≠ .handed :=
    fun _ hd => ne_handed_of_none hhanded hd
  obtain ⟨hcmem, deadline, hstage, hdue⟩ := mem_of_overdue? hoverdue
  have hc := h.fit.queue.prompt.sound.claim?_eq_some.mpr ⟨hcmem, rfl⟩
  have hwaits : c.stage.waits = true := by rw [hstage]; rfl
  have hexpire : s.table.expire c.ticket = s.table.without c.ticket := by
    rw [expire_eq_lift h.fit.queue.prompt hc hwaits, lift_of_waits hc hwaits]
  obtain ⟨w, hw, hwc⟩ := (h.fit.waiters c.ticket).mp
    (mem_unheld.mpr ⟨c, hcmem, rfl, waits_ne_held hwaits⟩)
  have hfound := find?_waiter h.fit.apart hw
  rw [hwc] at hfound
  simp only [Session.runOne?, hhanded, hoverdue, hfound, hexpire] at hrun
  obtain rfl := Option.some.inj hrun
  have hnotes : s.runOneNotes = [.lapsed w c.id c.patience s.now] := by
    simp only [runOneNotes, hhanded, hoverdue, hfound]
  have hfits := h.kept.lapsed_fits h.fit.queue hw (hwc ▸ hc) hstage hdue
  have hwaiters : (Session.tell { s with table := s.table.without c.ticket } w
      (.error (LockTable.busy c.id c.patience))).waiters =
      s.waiters.filter (·.ticket ≠ c.ticket) := by rw [tell_waiters, hwc]
  refine ⟨⟨h.fit.quit hc hwaits hquiet (tell_table _ _) hwaiters tell_guards, ?_⟩,
    ⟨tell_now, ?_, ?_⟩, w, c, hw, hcmem, hwc.symm, Or.inr hnotes, ?_⟩
  · rw [hnotes]
    exact h.kept.quit hfits (congrArg some hwc) rfl (tell_table _ _) hwaiters tell_now
  · rw [hwaiters]
    exact List.filter_sublist
  · intro d hd _
    rw [tell_table] at hd
    exact (mem_without.mp hd).1
  · rw [hwaiters, hwc]

/-- **Every claim that runs comes to an end.** -/
theorem Run.runOne? (h : Run ns s) (hrun : s.runOne? = some s') :
    Run (ns ++ s.runOneNotes) s' ∧ Onward s s' ∧ ∃ w c, Ends s s' w c := by
  cases hhanded : s.table.handed? with
  | some c => exact h.grant hhanded hrun
  | none =>
    cases hoverdue : s.table.overdue? s.now with
    | some c => exact h.lapse hhanded hoverdue hrun
    | none =>
      simp only [Session.runOne?, hhanded, hoverdue] at hrun
      cases hrun

end Session

end InletRegistry.Locks
