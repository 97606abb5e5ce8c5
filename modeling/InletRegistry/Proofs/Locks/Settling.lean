import InletRegistry.Proofs.Locks.Running
import Mathlib.Data.List.Perm.Subperm

/-!
# Sessions come to rest

Every claim that runs has one who waits for it, and comes to an end by it. So claims run until none can,
within the runs that a session allows for (`Run.settle`), and one who drives the session and waits has
its outcome within the deadlines that it allows for (`Settled.await`). After every step a session is at
rest: no claim can run, the time of nobody is up, and nobody waits for an answer (`Rest.take`).
-/

namespace InletRegistry.Locks.Session

open InletRegistry.Lookup InletRegistry.Time LockTable

variable {s s' : Session} {ns : List Note} {k : Nat} {c : Claim} {w : Waiter} {o : Outcome}
  {o? : Option Outcome} {id slot : String} {patience : Duration} {b : Bool}

/-! ## Claims run until none can -/

/-- What holds of a session in which no claim can run. -/
structure Settled (ns : List Note) (s : Session) : Prop extends Run ns s where
  quiet : ∀ c ∈ s.table.claims, c.stage ≠ .handed
  /-- The time of nobody who waits is up. -/
  pending : ∀ c ∈ s.table.claims, ∀ deadline, c.stage = .waiting deadline → s.now < deadline

theorem runOne?_eq_none (h : s.runOne? = none) : s.table.handed? = none ∧
    s.table.overdue? s.now = none := by
  cases hhanded : s.table.handed? with
  | some c =>
    simp only [Session.runOne?, hhanded] at h
    cases h
  | none =>
    cases hoverdue : s.table.overdue? s.now with
    | none => exact ⟨rfl, rfl⟩
    | some c =>
      simp only [Session.runOne?, hhanded, hoverdue] at h
      split at h <;> cases h

/-- At most as many wait as there are claims. -/
theorem Fit.length_waiters_le (h : s.Fit) : s.waiters.length ≤ s.table.claims.length := by
  have hsub : s.waiters.map Waiter.ticket ⊆ s.table.unheld := by
    intro j hj
    obtain ⟨w, hw, rfl⟩ := List.mem_map.mp hj
    exact (h.waiters w.ticket).mpr ⟨w, hw, rfl⟩
  have hle := (List.subperm_of_subset h.apart hsub).length_le
  rw [List.length_map] at hle
  exact Nat.le_trans hle (length_unheld_le s.table)

theorem Ends.length_lt {u : Session} (h : Ends s u w c) : u.waiters.length < s.waiters.length := by
  rw [h.waiters]
  exact List.length_filter_lt_length_iff_exists.mpr ⟨w, h.waiter, by simp⟩

/-- What holds of a session and is kept by every claim that runs holds when none can run any more; and
that comes, since every claim that runs has one who waits for it. -/
theorem Run.settle {Q : List Note → Session → Prop} (h : Run ns s) (hQ : Q ns s)
    (hstep : ∀ ns s s', Run ns s → Q ns s → s.runOne? = some s' → Q (ns ++ s.runOneNotes) s') :
    Settled (ns ++ s.settleNotes) s.settle ∧ Onward s s.settle ∧ Q (ns ++ s.settleNotes) s.settle := by
  suffices hall : ∀ n ns s, Run ns s → Q ns s → s.waiters.length < n →
      Settled (ns ++ settleNotesFor n s) (settleFor n s) ∧ Onward s (settleFor n s) ∧
        Q (ns ++ settleNotesFor n s) (settleFor n s) by
    refine hall _ ns s h hQ ?_
    have hle := h.fit.length_waiters_le
    omega
  intro n
  induction n with
  | zero => exact fun _ _ _ _ hlt => absurd hlt (Nat.not_lt_zero _)
  | succ n ih =>
    intro ns s h hQ hlt
    cases hrun : s.runOne? with
    | none =>
      obtain ⟨hhanded, hoverdue⟩ := runOne?_eq_none hrun
      simp only [settleNotesFor, settleFor, hrun, List.append_nil]
      exact ⟨⟨h, fun _ hc => ne_handed_of_none hhanded hc, overdue?_eq_none.mp hoverdue⟩,
        Onward.refl s, hQ⟩
    | some s' =>
      obtain ⟨hnext, honward, w, c, hends⟩ := h.runOne? hrun
      have hfewer := hends.length_lt
      obtain ⟨hsettled, hrest, hQ'⟩ := ih (ns ++ s.runOneNotes) s' hnext (hstep ns s s' h hQ hrun)
        (by omega)
      simp only [settleNotesFor, settleFor, hrun, ← List.append_assoc]
      exact ⟨hsettled, honward.trans hrest, hQ'⟩

/-! ## Who is told -/

/-- What a note of an end is to one who waits. -/
theorem Ends.answer? (h : Ends s s' w c) :
    ∃ n o, s.runOneNotes = [n] ∧ n.told? = some (w, o) := by
  rcases h.notes with hnotes | hnotes
  · exact ⟨_, _, hnotes, rfl⟩
  · exact ⟨_, _, hnotes, rfl⟩

/-- While all wait in the background, the answer stays what it is. -/
def Back (o : Option Outcome) (s : Session) : Prop :=
  s.answer = o ∧ ∀ w ∈ s.waiters, w.inBackground = true

theorem Back.runOne? {o : Option Outcome} (h : Back o s) (hrun : Run ns s)
    (hstep : s.runOne? = some s') : Back o s' := by
  obtain ⟨-, -, w, c, hends⟩ := hrun.runOne? hstep
  obtain ⟨n, o', hnotes, htold⟩ := hends.answer?
  have hanswer := (runOne?_told hstep).1
  rw [hnotes, List.filterMap_cons_none (Note.answer?_of_back htold (h.2 w hends.waiter))] at hanswer
  refine ⟨hanswer.trans h.1, ?_⟩
  intro v hv
  rw [hends.waiters] at hv
  exact h.2 v (List.mem_filter.mp hv).1

/-- How it stands with the one who drives the session: the answer is not there as long as it waits, and
is what is noted of its end. -/
structure Awaiting (w : Waiter) (ns : List Note) (s : Session) : Prop where
  fore : ∀ v ∈ s.waiters, v.inBackground = false ↔ v = w
  answer : s.answer = none ∧ w ∈ s.waiters ∨
    ∃ o, s.answer = some o ∧ w ∉ s.waiters ∧ ∃ n ∈ ns, n.told? = some (w, o)

theorem Awaiting.runOne? (h : Awaiting w ns s) (hrun : Run ns s) (hstep : s.runOne? = some s') :
    Awaiting w (ns ++ s.runOneNotes) s' := by
  obtain ⟨-, -, v, c, hends⟩ := hrun.runOne? hstep
  obtain ⟨n, o, hnotes, htold⟩ := hends.answer?
  have hanswer := (runOne?_told hstep).1
  rw [hnotes] at hanswer ⊢
  have hwaiters := hends.waiters
  refine ⟨?_, ?_⟩
  · intro v' hv'
    rw [hwaiters] at hv'
    exact h.fore v' (List.mem_filter.mp hv').1
  · cases hback : v.inBackground with
    | true =>
      have hne : w ≠ v := by
        rintro rfl
        rw [(h.fore w hends.waiter).mpr rfl] at hback
        cases hback
      rw [List.filterMap_cons_none (Note.answer?_of_back htold hback)] at hanswer
      rw [show s'.answer = s.answer from hanswer, hwaiters]
      rcases h.answer with ⟨hnone, hw⟩ | ⟨o', hsome, hw, m, hm, htold'⟩
      · exact Or.inl ⟨hnone, mem_filter_waiters hrun.fit.apart hw hends.waiter hne⟩
      · exact Or.inr ⟨o', hsome, fun hin => hw (List.mem_filter.mp hin).1, m,
          List.mem_append_left _ hm, htold'⟩
    | false =>
      obtain rfl := (h.fore v hends.waiter).mp hback
      rw [List.filterMap_cons_some (Note.answer?_of_fore htold hback)] at hanswer
      refine Or.inr ⟨o, hanswer, ?_, n, List.mem_append_right _ List.mem_cons_self, htold⟩
      rw [hwaiters]
      exact fun hin => of_decide_eq_true (List.mem_filter.mp hin).2 rfl

/-! ## The clock -/

/-- Where no claim can run, whoever does not hold its mutex waits. -/
theorem Settled.exists_deadline (h : Settled ns s) (hc : c ∈ s.table.claims) (hne : c.stage ≠ .held) :
    ∃ deadline, c.stage = .waiting deadline := by
  have hquiet := h.quiet c hc
  have hplaced := h.fit.queue.prompt.placed c hc
  cases hstage : c.stage with
  | waiting deadline => exact ⟨deadline, rfl⟩
  | held => exact absurd hstage hne
  | handed => exact absurd hstage hquiet
  | arrived | leaving => rw [hstage] at hplaced; rcases hplaced with h | h <;> cases h

/-- The claim that somebody waits for. -/
theorem Settled.exists_claim (h : Settled ns s) (hw : w ∈ s.waiters) :
    ∃ c ∈ s.table.claims, c.ticket = w.ticket ∧ ∃ deadline, c.stage = .waiting deadline := by
  obtain ⟨c, hc, hcw, hne⟩ := mem_unheld.mp ((h.fit.waiters w.ticket).mpr ⟨w, hw, rfl⟩)
  exact ⟨c, hc, hcw, h.exists_deadline hc hne⟩

/-- Where no claim can run, the clock may go on. -/
theorem Settled.at (h : Settled ns s) (now : Nat) : Run ns { s with now } := by
  refine ⟨⟨h.fit.queue, h.fit.waiters, h.fit.apart, h.fit.guarded, h.fit.guards, ?_⟩, h.kept.fits,
    h.kept.given, ?_, h.kept.ended⟩
  · rintro ⟨c, hc, hhanded⟩
    exact absurd hhanded (h.quiet c hc)
  · intro w hw
    obtain ⟨hopen, c, hc, hcw, since, hcame, hdeadline, -⟩ := h.kept.came w hw
    refine ⟨hopen, c, hc, hcw, since, hcame, hdeadline, ?_⟩
    intro hstage
    obtain ⟨d, hd, hdw, deadline, hwaiting⟩ := h.exists_claim hw
    obtain rfl := h.fit.queue.prompt.sound.eq_of_ticket hd hc (hdw.trans hcw.symm)
    rw [hwaiting] at hstage
    cases hstage

theorem mem_deadlines {t : LockTable} {deadline : Nat} :
    deadline ∈ t.deadlines ↔ ∃ c ∈ t.claims, c.stage = .waiting deadline := by
  simp only [deadlines, List.mem_filterMap]
  refine exists_congr fun c => and_congr_right fun _ => ?_
  cases c.stage <;> simp

/-- Once the clock stands at the next deadline and no claim can run, fewer wait. -/
theorem Settled.length_lt (h : Settled ns s) {ms : List Note} {deadline : Nat}
    (hdeadline : s.table.nextDeadline? = some deadline) (h' : Settled ms s')
    (honward : Onward { s with now := max s.now deadline } s') :
    s'.waiters.length < s.waiters.length := by
  obtain ⟨c, hc, hstage⟩ := mem_deadlines.mp (List.min?_mem hdeadline)
  obtain ⟨w, hw, hwc⟩ := (h.fit.waiters c.ticket).mp
    (mem_unheld.mpr ⟨c, hc, rfl, by rw [hstage]; exact nofun⟩)
  refine Nat.lt_of_le_of_ne honward.waiters.length_le fun hsame => ?_
  have hstill : w ∈ s'.waiters := by
    rw [honward.waiters.eq_of_length hsame]
    exact hw
  obtain ⟨d, hd, hdw, deadline', hwaiting⟩ := h'.exists_claim hstill
  have hold := honward.waits d hd (by rw [hwaiting]; rfl)
  obtain rfl := h.fit.queue.prompt.sound.eq_of_ticket hold hc (hdw.trans hwc)
  obtain rfl : deadline' = deadline := Stage.waiting.inj (hwaiting.symm.trans hstage)
  have hlate := h'.pending d hd deadline' hwaiting
  rw [honward.now] at hlate
  exact absurd (Nat.le_max_right s.now deadline') (Nat.not_le.mpr hlate)

/-- **The outcome comes.** One who waits for it need not wait for more deadlines than there are claims. -/
theorem Settled.await (h : Settled ns s) (hw : Awaiting w ns s) :
    Settled (ns ++ s.awaitNotes) s.await ∧ Awaiting w (ns ++ s.awaitNotes) s.await ∧
      s.await.answer ≠ none := by
  suffices hall : ∀ n ns s, Settled ns s → Awaiting w ns s → s.waiters.length ≤ n →
      Settled (ns ++ awaitNotesFor n s) (awaitFor n s) ∧
        Awaiting w (ns ++ awaitNotesFor n s) (awaitFor n s) ∧ (awaitFor n s).answer ≠ none from
    hall _ ns s h hw (Nat.le_succ_of_le h.fit.length_waiters_le)
  intro n
  induction n with
  | zero =>
    intro ns s h hw hle
    simp only [awaitNotesFor, awaitFor, List.append_nil]
    refine ⟨h, hw, ?_⟩
    rcases hw.answer with ⟨-, hin⟩ | ⟨o, hsome, -⟩
    · rw [List.length_eq_zero_iff.mp (Nat.le_zero.mp hle)] at hin
      cases hin
    · rw [hsome]
      exact Option.some_ne_none o
  | succ n ih =>
    intro ns s h hw hle
    rcases hw.answer with ⟨hnone, hin⟩ | ⟨o, hsome, -⟩
    · obtain ⟨c, hc, -, deadline, hwaiting⟩ := h.exists_claim hin
      have hsome : ∃ next, s.table.nextDeadline? = some next := by
        refine Option.ne_none_iff_exists'.mp fun hempty => ?_
        rw [nextDeadline?, List.min?_eq_none_iff] at hempty
        have := mem_deadlines.mpr ⟨c, hc, hwaiting⟩
        rw [hempty] at this
        cases this
      obtain ⟨next, hnext⟩ := hsome
      have hwait : Awaiting w ns { s with now := max s.now next } := ⟨hw.fore, hw.answer⟩
      obtain ⟨hsettled, honward, hwait'⟩ := (h.at (max s.now next)).settle hwait
        fun _ _ _ hrun hQ hstep => hQ.runOne? hrun hstep
      have hfewer := h.length_lt hnext hsettled honward
      simp only [awaitNotesFor, awaitFor, hnone, hnext, ← List.append_assoc] at hsettled hwait' ⊢
      exact ih _ _ hsettled hwait' (by rw [hnone] at hfewer; omega)
    · simp only [awaitNotesFor, awaitFor, hsome, List.append_nil]
      exact ⟨h, hw, Option.some_ne_none o⟩

/-! ## One who comes -/

/-- A session in which a claim has come, and has not been granted yet. -/
def join (s : Session) (id slot : String) (patience : Duration) (inBackground : Bool) : Session :=
  let (ticket, table) := s.table.acquire s.now id patience
  { s with table, waiters := ⟨ticket, slot, inBackground⟩ :: s.waiters }

/-- The one who waits for a claim that comes. -/
def newcomer (s : Session) (id slot : String) (patience : Duration) (inBackground : Bool) : Waiter :=
  ⟨(s.table.acquire s.now id patience).1, slot, inBackground⟩

theorem begin_eq (s : Session) (id slot : String) (patience : Duration) (b : Bool) :
    s.begin id slot patience b =
      if (s.join id slot patience b).table.holds (s.newcomer id slot patience b).ticket then
        (s.join id slot patience b).granted (s.newcomer id slot patience b).ticket id
      else s.join id slot patience b := rfl

/-- What is noted when one comes. -/
theorem beginNotes_eq (s : Session) (id slot : String) (patience : Duration) (b : Bool) :
    s.beginNotes id slot patience b = [.came (s.newcomer id slot patience b) id s.now patience] ++
      if (s.join id slot patience b).table.holds (s.newcomer id slot patience b).ticket then
        [.granted (s.newcomer id slot patience b) id s.now]
      else [] := rfl

theorem grantNotes_join (s : Session) (id slot : String) (patience : Duration) (b : Bool) :
    (s.join id slot patience b).grantNotes (s.newcomer id slot patience b).ticket id =
      [.granted (s.newcomer id slot patience b) id s.now] := by
  simp only [grantNotes, join, newcomer, List.find?_cons, decide_true]

/-- Whoever is not granted at once waits. -/
theorem begin_of_not_holds (hholds : ¬(s.join id slot patience b).table.holds
    (s.newcomer id slot patience b).ticket = true) :
    (s.begin id slot patience b).waiters = s.newcomer id slot patience b :: s.waiters ∧
      (s.begin id slot patience b).answer = s.answer := by
  rw [begin_eq, if_neg hholds]
  exact ⟨rfl, rfl⟩

/-- One more waits. -/
theorem exists_waiter_join {j : Nat} : (∃ w ∈ (s.join id slot patience b).waiters, w.ticket = j) ↔
    (∃ w ∈ s.waiters, w.ticket = j) ∨ j = (s.newcomer id slot patience b).ticket := by
  show (∃ w ∈ s.newcomer id slot patience b :: s.waiters, w.ticket = j) ↔ _
  rw [List.exists_mem_cons_iff, or_comm, eq_comm]

section Coming

variable (h : Settled ns s) (id slot : String) (patience : Duration) (b : Bool)

include h

/-- The claim that has come. -/
theorem Settled.claim?_join : ∃ c,
    (s.join id slot patience b).table.claim? (s.newcomer id slot patience b).ticket = some c ∧
      c.id = id ∧ c.patience = patience ∧
      (s.join id slot patience b).table.claims = s.table.claims ++ [c] ∧
      (c.stage = .held ∨ c.stage = .waiting (s.now + patience.milliseconds)) := by
  obtain ⟨stage, hclaims, hstage, -⟩ := h.fit.queue.acquire_spec s.now id patience
  have hsound := (h.fit.queue.acquire s.now id patience).prompt.sound
  refine ⟨_, hsound.claim?_eq_some.mpr ⟨?_, rfl⟩, rfl, rfl, hclaims, hstage⟩
  rw [hclaims]
  exact List.mem_append_right _ List.mem_cons_self

theorem Settled.fresh_le_newcomer : s.table.fresh ≤ (s.newcomer id slot patience b).ticket := by
  obtain ⟨-, -, -, hfresh⟩ := h.fit.queue.acquire_spec s.now id patience
  exact hfresh

theorem Settled.ticket_lt (hw : w ∈ s.waiters) : w.ticket < s.table.fresh :=
  h.fit.queue.prompt.sound.lt_of_mem_unheld ((h.fit.waiters w.ticket).mpr ⟨w, hw, rfl⟩)

theorem Settled.newcomer_not_mem : s.newcomer id slot patience b ∉ s.waiters := by
  intro hin
  have hlt := h.ticket_lt hin
  have hle := h.fresh_le_newcomer id slot patience b
  omega

theorem Settled.apart_join : ((s.join id slot patience b).waiters.map Waiter.ticket).Nodup := by
  refine List.nodup_cons.mpr ⟨?_, h.fit.apart⟩
  intro hin
  obtain ⟨w, hw, hticket⟩ := List.mem_map.mp hin
  have hsame : w.ticket = (s.newcomer id slot patience b).ticket := hticket
  have hlt := h.ticket_lt hw
  have hle := h.fresh_le_newcomer id slot patience b
  omega

/-- A claim that finds its mutex free holds it and is about to be granted. -/
theorem Settled.join_due (hholds : (s.join id slot patience b).table.holds
    (s.newcomer id slot patience b).ticket = true) :
    Due (s.newcomer id slot patience b).ticket (s.join id slot patience b) := by
  obtain ⟨c, hc, -, -, hclaims, -⟩ := h.claim?_join id slot patience b
  have hheld : c.stage = .held := by
    simpa only [LockTable.holds, hc, decide_eq_true_eq] using hholds
  have hticket := (mem_of_claim? hc).2
  have hfresh := h.fresh_le_newcomer id slot patience b
  have hunheld : ∀ j, j ∈ (s.join id slot patience b).table.unheld ↔ j ∈ s.table.unheld := by
    intro j
    rw [mem_unheld_concat hclaims]
    simp [hheld]
  have hold : ∀ d ∈ (s.join id slot patience b).table.claims, d.stage ≠ .held ∨ d.ticket ≠
      (s.newcomer id slot patience b).ticket → d ∈ s.table.claims := by
    intro d hd hnot
    rw [hclaims] at hd
    rcases List.mem_append.mp hd with hd | hd
    · exact hd
    · obtain rfl := List.mem_singleton.mp hd
      rcases hnot with hnot | hnot
      · exact absurd hheld hnot
      · exact absurd hticket hnot
  refine ⟨h.fit.queue.acquire s.now id patience, ⟨c, hc, hheld⟩, ?_, h.apart_join id slot patience b,
    ?_, ?_, ?_, ?_⟩
  · intro j
    rw [hunheld, h.fit.waiters j, exists_waiter_join]
  · exact fun d hd hstage hne => h.fit.guarded d (hold d hd (Or.inr hne)) hstage
  · intro at' j hj
    obtain ⟨hlt, hnone⟩ := h.fit.guards at' j hj
    refine ⟨Nat.lt_of_lt_of_le hlt (fresh_le_acquire s.table s.now id patience), ?_, by omega⟩
    rw [hunheld]
    exact hnone
  · intro d hd hstage
    exact h.quiet d (hold d hd (Or.inl (by rw [hstage]; decide))) hstage
  · intro d hd deadline hstage
    exact h.pending d (hold d hd (Or.inl (waits_ne_held (by rw [hstage]; rfl)))) deadline hstage

/-- A claim that does not find its mutex free waits. -/
theorem Settled.join_fit (hholds : ¬(s.join id slot patience b).table.holds
    (s.newcomer id slot patience b).ticket = true) : (s.join id slot patience b).Fit := by
  obtain ⟨c, hc, -, -, hclaims, hstage⟩ := h.claim?_join id slot patience b
  have hnot : c.stage ≠ .held := by
    simpa only [LockTable.holds, hc, decide_eq_true_eq] using hholds
  have hwaits : c.stage = .waiting (s.now + patience.milliseconds) := hstage.resolve_left hnot
  have hticket := (mem_of_claim? hc).2
  have hfresh := h.fresh_le_newcomer id slot patience b
  refine ⟨h.fit.queue.acquire s.now id patience, ?_, h.apart_join id slot patience b, ?_, ?_, ?_⟩
  · intro j
    rw [mem_unheld_concat hclaims, h.fit.waiters j, hticket, exists_waiter_join,
      and_iff_left hnot]
  · intro d hd hheld
    rw [hclaims] at hd
    rcases List.mem_append.mp hd with hd | hd
    · exact h.fit.guarded d hd hheld
    · exact absurd ((List.mem_singleton.mp hd) ▸ hheld) hnot
  · intro at' j hj
    obtain ⟨hlt, hnone⟩ := h.fit.guards at' j hj
    refine ⟨Nat.lt_of_lt_of_le hlt (fresh_le_acquire s.table s.now id patience), ?_⟩
    rw [mem_unheld_concat hclaims, hticket]
    rintro (hin | ⟨rfl, -⟩)
    · exact hnone hin
    · omega
  · rintro ⟨d, hd, hhanded⟩
    rw [hclaims] at hd
    rcases List.mem_append.mp hd with hd | hd
    · exact absurd hhanded (h.quiet d hd)
    · rw [List.mem_singleton.mp hd, hwaits] at hhanded
      cases hhanded

/-- The transcript says that one has come. -/
theorem Settled.join_kept :
    Kept (ns ++ [Note.came (s.newcomer id slot patience b) id s.now patience])
      (s.join id slot patience b) := by
  obtain ⟨c, hc, hid, hpatience, hclaims, hstage⟩ := h.claim?_join id slot patience b
  obtain ⟨hcmem, hticket⟩ := mem_of_claim? hc
  have hfresh := h.fresh_le_newcomer id slot patience b
  have hended : (ns ++ [Note.came (s.newcomer id slot patience b) id s.now patience]).filterMap
      Note.ended? = ns.filterMap Note.ended? := by
    rw [List.filterMap_append, List.filterMap_cons_none rfl, List.filterMap_nil, List.append_nil]
  refine ⟨h.kept.fits.concat ?_, ?_, ?_, ?_⟩
  · intro k hk
    exact Nat.lt_of_lt_of_le (h.kept.given k hk) hfresh
  · intro k hk
    rw [List.filterMap_append, List.mem_append] at hk
    rcases hk with hk | hk
    · exact Nat.lt_of_lt_of_le (h.kept.given k hk) (fresh_le_acquire s.table s.now id patience)
    · have hlast : k = (s.newcomer id slot patience b).ticket := by simpa [Note.came?] using hk
      rw [hlast, ← hticket]
      exact (h.fit.queue.acquire s.now id patience).prompt.sound.given c hcmem
  · intro w hw
    rw [hended]
    rcases List.mem_cons.mp hw with rfl | hw
    · refine ⟨?_, c, hcmem, hticket, s.now, ?_, ?_, ?_⟩
      · exact fun hin => absurd (h.kept.lt_of_ended hin) (Nat.not_lt.mpr hfresh)
      · rw [hid, hpatience]
        exact List.mem_append_right _ List.mem_cons_self
      · intro deadline hwaiting
        rcases hstage with hheld | hwaits
        · rw [hheld] at hwaiting
          cases hwaiting
        · rw [hpatience]
          exact Stage.waiting.inj (hwaiting.symm.trans hwaits)
      · exact fun _ => Or.inl rfl
    · obtain ⟨hopen, d, hd, hdw, since, hcame, hrest⟩ := h.kept.came w hw
      refine ⟨hopen, d, ?_, hdw, since, List.mem_append_left _ hcame, hrest⟩
      rw [hclaims]
      exact List.mem_append_left _ hd
  · intro w id' since patience' hcame
    rw [hended]
    rcases List.mem_append.mp hcame with hcame | hlast
    · exact (h.kept.ended w id' since patience' hcame).imp_left (List.mem_cons_of_mem _)
    · obtain ⟨rfl, -⟩ := Note.came.inj (List.mem_singleton.mp hlast)
      exact Or.inl List.mem_cons_self

/-- One comes, and may be granted at once. -/
theorem Settled.begin : Run (ns ++ s.beginNotes id slot patience b) (s.begin id slot patience b) := by
  have hkept := h.join_kept id slot patience b
  rw [begin_eq, beginNotes_eq, ← List.append_assoc]
  split
  next hholds =>
    have hdue := h.join_due id slot patience b hholds
    obtain ⟨c, hc, hid, -⟩ := h.claim?_join id slot patience b
    have hheld : c.stage = .held := by
      simpa only [LockTable.holds, hc, decide_eq_true_eq] using hholds
    have hgranted := hdue.kept hkept hc hheld
    rw [hid, grantNotes_join] at hgranted
    exact ⟨hdue.granted id, hgranted⟩
  next hholds =>
    rw [List.append_nil]
    exact ⟨h.join_fit id slot patience b hholds, hkept⟩

/-- Whoever is granted at once is told so, and does not wait. -/
theorem Settled.begin_of_holds (hholds : (s.join id slot patience b).table.holds
    (s.newcomer id slot patience b).ticket = true) :
    (s.begin id slot patience b).waiters = s.waiters ∧
      (s.begin id slot patience b).answer = (if b then s.answer else some (.ok id)) := by
  have hothers : ∀ w ∈ s.waiters, w.ticket ≠ (s.newcomer id slot patience b).ticket := by
    intro w hw
    have hlt := h.ticket_lt hw
    have hle := h.fresh_le_newcomer id slot patience b
    omega
  have hbegin : s.begin id slot patience b =
      ((s.join id slot patience b).putGuard slot (s.newcomer id slot patience b).ticket).tell
        (s.newcomer id slot patience b) (.ok id) := by
    rw [begin_eq, if_pos hholds]
    simp only [granted, join, newcomer, List.find?_cons, decide_true]
  rw [hbegin]
  constructor
  · rw [tell_waiters]
    show (s.newcomer id slot patience b :: s.waiters).filter
      (·.ticket ≠ (s.newcomer id slot patience b).ticket) = s.waiters
    rw [List.filter_cons_of_neg (by simp)]
    exact List.filter_eq_self.mpr fun w hw => decide_eq_true (hothers w hw)
  · cases b <;> rfl

end Coming

/-! ## Steps -/

/-- What holds of a session between two steps: no claim can run, and nobody waits for an answer. -/
structure Rest (ns : List Note) (s : Session) : Prop extends Settled ns s where
  back : ∀ w ∈ s.waiters, w.inBackground = true

/-- One who comes to drive the session waits alone. -/
theorem Rest.awaiting (h : Rest ns s) (hanswer : s.answer = none) (id slot : String)
    (patience : Duration) : Awaiting (s.newcomer id slot patience false)
      (ns ++ s.beginNotes id slot patience false) (s.begin id slot patience false) := by
  have hnew := h.newcomer_not_mem id slot patience false
  have hfore : ∀ v ∈ s.waiters, v.inBackground = false ↔ v = s.newcomer id slot patience false := by
    intro v hv
    constructor
    · intro hfalse
      rw [h.back v hv] at hfalse
      cases hfalse
    · rintro rfl
      exact absurd hv hnew
  by_cases hholds : (s.join id slot patience false).table.holds
      (s.newcomer id slot patience false).ticket = true
  · obtain ⟨hwaiters, hsaid⟩ := h.begin_of_holds id slot patience false hholds
    refine ⟨hwaiters ▸ hfore, Or.inr ⟨.ok id, hsaid, hwaiters ▸ hnew, ?_⟩⟩
    refine ⟨.granted (s.newcomer id slot patience false) id s.now, ?_, rfl⟩
    rw [beginNotes_eq, if_pos hholds]
    exact List.mem_append_right _ (List.mem_append_right _ List.mem_cons_self)
  · obtain ⟨hwaiters, hsaid⟩ := begin_of_not_holds hholds
    refine ⟨?_, Or.inl ⟨hsaid.trans hanswer, ?_⟩⟩
    · rw [hwaiters]
      intro v hv
      rcases List.mem_cons.mp hv with rfl | hv
      · exact ⟨fun _ => rfl, fun _ => rfl⟩
      · exact hfore v hv
    · rw [hwaiters]
      exact List.mem_cons_self

/-- One who comes in the background leaves the answer as it is. -/
theorem Rest.back_begin (h : Rest ns s) (id slot : String) (patience : Duration) :
    Back s.answer (s.begin id slot patience true) := by
  by_cases hholds : (s.join id slot patience true).table.holds
      (s.newcomer id slot patience true).ticket = true
  · obtain ⟨hwaiters, hsaid⟩ := h.begin_of_holds id slot patience true hholds
    exact ⟨hsaid, hwaiters ▸ h.back⟩
  · obtain ⟨hwaiters, hsaid⟩ := begin_of_not_holds hholds
    refine ⟨hsaid, ?_⟩
    rw [hwaiters]
    intro w hw
    rcases List.mem_cons.mp hw with rfl | hw
    · rfl
    · exact h.back w hw

/-- A session comes to rest by itself where all wait in the background. -/
theorem Run.rest (h : Run ns s) (hback : Back o? s) :
    Rest (ns ++ s.settleNotes) s.settle ∧ Onward s s.settle ∧ s.settle.answer = o? := by
  obtain ⟨hsettled, honward, hback⟩ := h.settle (Q := fun _ s => Back o? s) hback
    fun _ _ _ hrun hQ hstep => hQ.runOne? hrun hstep
  exact ⟨⟨hsettled, hback.2⟩, honward, hback.1⟩

/-- A session in which one waits for an outcome comes to rest with the outcome of that one. -/
theorem Run.await (h : Run ns s) (hw : Awaiting w ns s) :
    Rest (ns ++ s.settleNotes ++ s.settle.awaitNotes) s.settle.await ∧
      ∃ o, s.settle.await.answer = some o ∧
        ∃ n ∈ ns ++ s.settleNotes ++ s.settle.awaitNotes, n.told? = some (w, o) := by
  obtain ⟨hsettled, -, hwaiting⟩ := h.settle hw fun _ _ _ hrun hQ hstep => hQ.runOne? hrun hstep
  obtain ⟨hdone, hawaited, hanswered⟩ := hsettled.await hwaiting
  rcases hawaited.answer with ⟨hnone, -⟩ | ⟨o, hsome, hout, hnoted⟩
  · exact absurd hnone hanswered
  refine ⟨⟨hdone, fun v hv => ?_⟩, o, hsome, hnoted⟩
  cases hfore : v.inBackground with
  | true => rfl
  | false => exact absurd ((hawaited.fore v hv).mp hfore ▸ hv) hout

/-- What was told before does not matter. -/
theorem Rest.reset (h : Rest ns s) : Rest ns { s with answer := none, happenings := [] } :=
  ⟨⟨⟨⟨h.fit.queue, h.fit.waiters, h.fit.apart, h.fit.guarded, h.fit.guards, h.fit.calm⟩,
    h.kept.fits, h.kept.given, h.kept.came, h.kept.ended⟩, h.quiet, h.pending⟩, h.back⟩

/-- The guard of a slot is released. -/
theorem Rest.release (h : Rest ns s) (hslot : s.guards.lookup slot = some k) :
    Run ns { s with table := s.table.release k, guards := s.guards.filter (·.1 ≠ slot) } := by
  have hpassed := h.fit.queue.release h.quiet k
  refine ⟨⟨hpassed.queue, ?_, h.fit.apart, ?_, ?_, ?_⟩, ?_⟩
  · intro j
    rw [hpassed.unheld]
    exact h.fit.waiters j
  · intro c hc hheld
    obtain ⟨other, hother⟩ := h.fit.guarded c (hpassed.mem_of_held hc hheld) hheld
    have hne : other ≠ slot := by
      rintro rfl
      exact hpassed.gone c hc hheld (hslot.symm.trans hother)
    exact ⟨other, (lookup_filter_ne hne).trans hother⟩
  · intro other j hj
    have hne : other ≠ slot := by
      rintro rfl
      rw [lookup_filter_self] at hj
      cases hj
    rw [hpassed.unheld, hpassed.fresh]
    exact h.fit.guards other j ((lookup_filter_ne hne).symm.trans hj)
  · intro _ c hc deadline hstage
    exact h.pending c (hpassed.mem_of_waits hc (by rw [hstage]; rfl)) deadline hstage
  · refine h.kept.passed h.fit.queue.prompt.sound hpassed rfl rfl ?_ h.pending
    exact fun w hw => Or.inl ((h.fit.waiters w.ticket).mpr ⟨w, hw, rfl⟩)

/-- One who waits in the background is dropped. -/
theorem Rest.drop (h : Rest ns s) (hw : w ∈ s.waiters) :
    Run (ns ++ [.dropped w]) { s with
      table := s.table.cancel w.ticket
      waiters := s.waiters.filter (·.ticket ≠ w.ticket) } := by
  obtain ⟨c, hcmem, hcw, deadline, hstage⟩ := h.exists_claim hw
  have hc := h.fit.queue.prompt.sound.claim?_eq_some.mpr ⟨hcmem, hcw⟩
  have hwaits : c.stage.waits = true := by rw [hstage]; rfl
  have hcancel : s.table.cancel w.ticket = s.table.without w.ticket := by
    rw [cancel_eq_lift hc hwaits, lift_of_waits hc hwaits]
  obtain ⟨hopen, d, -, -, since, hcame, -⟩ := h.kept.came w hw
  exact ⟨h.fit.quit hc hwaits h.quiet hcancel rfl rfl,
    h.kept.quit ⟨hopen, d.id, since, d.patience, hcame⟩ rfl rfl hcancel rfl rfl⟩

/-- **After every step a session is at rest.** -/
theorem Rest.take (h : Rest ns s) (step : Step) : Rest (ns ++ s.takeNotes step) (s.take step).2 := by
  have hreset := h.reset
  have hback : Back none { s with answer := none, happenings := [] } := ⟨rfl, h.back⟩
  cases step with
  | acquire id slot patience =>
    have hawaiting := hreset.awaiting rfl id slot patience
    simp only [takeNotes, Session.take, ← List.append_assoc]
    exact ((hreset.begin id slot patience false).await hawaiting).1
  | spawn id slot patience =>
    have hbegun := hreset.begin id slot patience true
    simp only [takeNotes, Session.take, ← List.append_assoc]
    exact (hbegun.rest (hreset.back_begin id slot patience)).1
  | release slot =>
    simp only [takeNotes, Session.take]
    cases hslot : s.guards.lookup slot with
    | none => exact (hreset.toRun.rest hback).1
    | some k => exact ((hreset.release hslot).rest hback).1
  | cancel slot =>
    simp only [takeNotes, Session.take]
    cases hfound : s.waiters.find? fun w => w.slot = slot ∧ w.inBackground with
    | none => exact (hreset.toRun.rest hback).1
    | some w =>
      have hdropped := hreset.drop (List.mem_of_find?_eq_some hfound)
      have hstill : Back none { s with
          answer := none
          happenings := []
          table := s.table.cancel w.ticket
          waiters := s.waiters.filter (·.ticket ≠ w.ticket) } :=
        ⟨rfl, fun v hv => h.back v (List.mem_filter.mp hv).1⟩
      have hrest := (hdropped.rest hstill).1
      rw [List.append_assoc] at hrest
      exact hrest
  | advance milliseconds =>
    exact ((hreset.at (s.now + milliseconds)).rest ⟨rfl, h.back⟩).1

theorem rest_start : Rest [] start := by
  refine ⟨⟨⟨⟨Queue.empty, ?_, List.nodup_nil, nofun, nofun, nofun⟩, .nil, nofun, nofun, nofun⟩, nofun,
    nofun⟩, nofun⟩
  intro k
  exact ⟨nofun, nofun⟩

theorem Rest.after (h : Rest ns s) (steps : List Step) :
    Rest (ns ++ s.notes steps) (s.after steps) := by
  induction steps generalizing ns s with
  | nil =>
    rw [notes, List.append_nil]
    exact h
  | cons step steps ih =>
    rw [notes, ← List.append_assoc]
    exact ih (h.take step)

end InletRegistry.Locks.Session
