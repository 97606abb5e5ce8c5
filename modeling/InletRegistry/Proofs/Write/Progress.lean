import InletRegistry.Proofs.Write.Orderly

/-!
# Runs get on

A run that has its lock gets to its end: it keeps the lock whatever happens beside it, its next step can
always be taken, and each of its steps leaves fewer to take (`Stand.stepsLeft`). So it returns after at
most six of its own steps, however they fall between those of others. A run that has not got its lock
yet can ask for it, be handed it, and run with it, and while it waits its time may be up.
-/

namespace InletRegistry

open InletRegistry.Locks InletRegistry.Time InletRegistry.Write

namespace Write

variable {σ α : Type} {r : Revision}

/-! ## Steps that are left -/

/-- How many steps a change has left at most, to let go of the lock being the last. -/
@[simp] def Phase.stepsLeft : Phase → Nat
  | authorizing => 5
  | verifying => 4
  | checking => 3
  | executing => 2

@[simp] def Progress.stepsLeft : Progress α → Nat
  | due phase => phase.stepsLeft
  | ended _ => 1

/-- How many steps a run has left at most. -/
@[simp] def Stand.stepsLeft : Stand α → Nat
  | queued _ => 6
  | working _ progress => progress.stepsLeft
  | _ => 0

theorem Stand.stepsLeft_le (stand : Stand α) : stand.stepsLeft ≤ 6 := by
  rcases stand with _ | ⟨_, phase | _⟩ | _ | _ | _
  case working.due => cases phase <;> simp
  all_goals simp

namespace Steps

variable (steps : Steps σ α)

/-- A step brings a change further. -/
theorem stepsLeft_advance (r : Revision) (s : σ) (phase : Phase) :
    (steps.advance r s phase).1.stepsLeft < phase.stepsLeft := by
  cases phase with
  | authorizing =>
    simp only [advance]
    rcases steps.authorize s with ⟨⟨f⟩ | ⟨⟩, s⟩ <;> simp
  | verifying =>
    simp only [advance]
    rcases steps.verify s with ⟨⟨f⟩ | ⟨⟩, s⟩ <;> simp
  | checking =>
    simp only [advance]
    rcases steps.checkRevision r s with ⟨⟨f⟩ | ⟨⟩, s⟩ <;> simp
  | executing => simp [advance]

theorem goOn_ended (m : Nat) (result : Except Failure α) (s : σ) :
    (steps.goOn r)^[m] (.ended result, s) = (.ended result, s) :=
  Function.iterate_fixed rfl m

/-- A change that goes on for as many steps as it may have left has ended. -/
theorem exists_ended (m : Nat) (x : Write.Progress α × σ) (h : x.1.stepsLeft ≤ m + 1) :
    ∃ result s, (steps.goOn r)^[m] x = (.ended result, s) := by
  induction m generalizing x with
  | zero =>
    obtain ⟨phase | result, s⟩ := x
    · cases phase <;> simp at h
    · exact ⟨result, s, rfl⟩
  | succ m ih =>
    rw [Function.iterate_succ_apply]
    refine ih _ ?_
    obtain ⟨phase | result, s⟩ := x
    · have hless := steps.stepsLeft_advance r s phase
      have h : phase.stepsLeft ≤ m + 2 := h
      show (steps.advance r s phase).1.stepsLeft ≤ m + 1
      omega
    · exact Nat.le_add_left 1 m

/-- Nothing comes after four steps. -/
theorem goOn_four_goOn (x : Write.Progress α × σ) :
    (steps.goOn r)^[4] (steps.goOn r x) = (steps.goOn r)^[4] x := by
  have hle : x.1.stepsLeft ≤ 4 + 1 := by
    rcases x with ⟨phase | result, s⟩
    · cases phase <;> simp
    · simp
  obtain ⟨result, s, hended⟩ := steps.exists_ended (r := r) 4 x hle
  rw [← Function.iterate_succ_apply, Function.iterate_succ_apply', hended]
  rfl

end Steps

namespace Run

/-- What a run comes to if nothing comes between its steps, which see these locks. -/
def toCome (locks : LockTable) (run : Run σ α) (s : σ) : Write.Progress α × σ :=
  match run.stand with
  | .working _ progress => ((run.steps locks).goOn run.revision)^[4] (progress, s)
  | .returned _ result => (.ended result, s)
  | _ => ((run.steps locks).goOn run.revision)^[4] (.due .authorizing, s)

/-- The lock of a run is its own, or was so to the end. -/
def Secure (locks : LockTable) (run : Run σ α) : Prop :=
  run.stand.isOpen = true ∧ locks.holds run.stand.ticket = true ∨
    ∃ k result, run.stand = .returned k result

end Run

end Write

namespace Desk

variable {σ α : Type} {t u : Desk σ α} {run : Run σ α} {e : Event σ α} {events : List (Event σ α)}
  {n k : Nat} {stand : Stand α} {locks : LockTable} {state : σ} {log : List (Entry α)}

/-! ## A turn of a run that has its lock -/

namespace Turn

theorem isOpen (h : t.Turn n run stand locks state log) : run.stand.isOpen = true := by
  cases h with
  | enter hstand | step hstand | leave hstand | giveUp hstand => rw [hstand]; rfl

/-- Every turn leaves fewer steps to take. -/
theorem stepsLeft_lt (h : t.Turn n run stand locks state log) :
    stand.stepsLeft < run.stand.stepsLeft := by
  cases h with
  | enter hstand => simp [hstand]
  | @step k phase progress state log hstand hstep =>
    have hless := ((run.steps t.locks).noted (Entry.mk n t.locks)).stepsLeft_advance run.revision
      (t.state, t.log) phase
    rw [hstep] at hless
    rw [hstand]
    exact hless
  | leave hstand => simp [hstand]
  | giveUp hstand _ hquit => rcases hquit with ⟨-, rfl⟩ | ⟨-, rfl⟩ <;> simp [hstand]

/-- A run that has its lock does not give up: it goes on under the same locks, or returns. -/
theorem goes (h : t.Turn n run stand locks state log)
    (hholds : t.locks.holds run.stand.ticket = true) :
    stand.isOpen = true ∧ locks = t.locks ∨ ∃ k result, stand = .returned k result := by
  cases h with
  | enter | step => exact Or.inl ⟨rfl, rfl⟩
  | leave => exact Or.inr ⟨_, _, rfl⟩
  | @giveUp k locks quit stand hstand hlocks hquit =>
    obtain ⟨c, hc, hheld⟩ := LockTable.claim?_of_holds hholds
    rw [hstand] at hc
    rcases hquit with ⟨rfl, -⟩ | ⟨rfl, -⟩ <;>
    · obtain ⟨⟨d, hd, hsuspended⟩, -⟩ := LockTable.map_claimAt?_eq_some.mp hlocks
      obtain rfl := Option.some.inj (hc.symm.trans hd)
      rw [hheld] at hsuspended
      cases hsuspended

theorem secure (h : t.Turn n run stand locks state log)
    (hholds : t.locks.holds run.stand.ticket = true) : Run.Secure locks { run with stand } := by
  rcases h.goes hholds with ⟨hopen, rfl⟩ | hreturned
  · refine Or.inl ⟨hopen, ?_⟩
    show t.locks.holds stand.ticket = true
    rw [h.ticket]
    exact hholds
  · exact Or.inr hreturned

/-- What is to come of it stays the same. -/
theorem toCome (h : t.Turn n run stand locks state log)
    (hholds : t.locks.holds run.stand.ticket = true) :
    Run.toCome locks { run with stand } state = run.toCome t.locks t.state := by
  have hgoes := h.goes hholds
  obtain ⟨revision, steps, old⟩ := run
  cases h with
  | @enter k hstand =>
    obtain rfl : old = .queued k := hstand
    rfl
  | @step k phase progress state log hstand hstep =>
    obtain rfl : old = .working k (.due phase) := hstand
    obtain ⟨hprogress, hstate⟩ :=
      noted_advance (r := revision) (steps t.locks) (Entry.mk n t.locks) t.state t.log phase
    rw [hstep] at hprogress hstate
    have hgoOn : (steps t.locks).goOn revision (.due phase, t.state) = (progress, state) :=
      (Prod.ext hprogress hstate).symm
    simp only [Run.toCome, ← hgoOn, Steps.goOn_four_goOn]
  | @leave k result locks hstand =>
    obtain rfl : old = .working k (.ended result) := hstand
    exact ((steps t.locks).goOn_ended 4 result t.state).symm
  | giveUp _ _ hquit =>
    rcases hquit with ⟨-, rfl⟩ | ⟨-, rfl⟩ <;> rcases hgoes with ⟨hopen, -⟩ | ⟨k, result, hstand⟩ <;>
    first | cases hopen | cases hstand

end Turn

/-! ## Whatever happens beside it -/

/-- A run is as secure as it was where nothing makes its claim quit. -/
theorem secure_keep {locks' : LockTable} (h : run.Secure locks) (hs : locks.Sound)
    (hlocks : locks' = locks ∨ ∃ e, locks.next? e = some locks' ∧
      (run.stand.isOpen = true → e.quitter? ≠ some run.stand.ticket)) : run.Secure locks' := by
  rcases h with ⟨hopen, hholds⟩ | hreturned
  · rcases hlocks with rfl | ⟨e, he, hquit⟩
    · exact Or.inl ⟨hopen, hholds⟩
    · exact Or.inl ⟨hopen, LockTable.holds_next hs he (hquit hopen) hholds⟩
  · exact Or.inr hreturned

/-- How many events of a course are turns of a run. -/
def turns (n : Nat) (events : List (Event σ α)) : Nat := events.countP fun e => e.run? = some n

namespace Orderly

/-- A secure run stays so whatever happens, and each of its turns brings it further. -/
theorem secure_next (h : t.Orderly) (hn : t.runs[n]? = some run) (hsecure : run.Secure t.locks)
    (he : t.next? e = some u) :
    ∃ stand, u.runs[n]? = some { run with stand } ∧ Run.Secure u.locks { run with stand } ∧
      stand.stepsLeft + turns n [e] ≤ run.stand.stepsLeft := by
  have hlt : n < t.runs.length := (List.getElem?_eq_some_iff.mp hn).1
  have hsound := h.seating.sound
  -- An event that is not a turn of the run.
  have hother : ∀ {e : Event σ α} {locks : LockTable}, e.run? ≠ some n →
      (locks = t.locks ∨ ∃ l, t.locks.next? l = some locks ∧
        (run.stand.isOpen = true → l.quitter? ≠ some run.stand.ticket)) →
      run.Secure locks ∧ run.stand.stepsLeft + turns n [e] ≤ run.stand.stepsLeft := by
    intro e locks hne hlocks
    refine ⟨secure_keep hsecure hsound hlocks, ?_⟩
    simp only [turns, List.countP_singleton, hne, decide_false, Bool.false_eq_true, ↓reduceIte,
      Nat.add_zero, Nat.le_refl]
  rcases next?_cases he with ⟨revision, steps, rfl, rfl⟩ | ⟨m, run', stand, locks, state, log, hm,
    hrun', hturn, rfl⟩ | ⟨l, locks, rfl, hspares, hlocks, rfl⟩ | ⟨state, rfl, rfl⟩
  · exact ⟨run.stand, (List.getElem?_append_left hlt).trans hn,
      hother nofun (Or.inr ⟨.arrive _ _, rfl, fun _ => nofun⟩)⟩
  · by_cases hmn : m = n
    · subst hmn
      obtain rfl := Option.some.inj (hn.symm.trans hrun')
      have hholds : t.locks.holds run.stand.ticket = true := by
        rcases hsecure with ⟨-, hholds⟩ | ⟨k, result, hreturned⟩
        · exact hholds
        · have hopen := hturn.isOpen
          rw [hreturned] at hopen
          cases hopen
      refine ⟨stand, List.getElem?_set_self hlt, hturn.secure hholds, ?_⟩
      have hless := hturn.stepsLeft_lt
      simp only [turns, List.countP_singleton, hm, decide_true, ↓reduceIte]
      exact hless
    · refine ⟨run.stand, (List.getElem?_set_ne hmn).trans hn, hother (fun heq => hmn ?_) ?_⟩
      · rw [hm] at heq
        exact Option.some.inj heq
      · refine hturn.moves.locks_cases.imp id ?_
        rintro ⟨l, hl, hquits⟩
        refine ⟨l, hl, fun hopen hquit => ?_⟩
        obtain ⟨s, hs, hticket⟩ := Run.exists_seat? hopen
        obtain ⟨s', hs', hticket'⟩ := Option.map_eq_some_iff.mp (hquits _ hquit)
        refine hmn (h.seating.apart m n s' s ?_ ?_ (hticket'.trans hticket.symm))
        · rw [seats_getElem? hrun', hs']
        · rw [seats_getElem? hn, hs]
  · refine ⟨run.stand, hn, hother nofun (Or.inr ⟨l, hlocks, fun hopen => ?_⟩)⟩
    obtain ⟨s, hs, hticket⟩ := Run.exists_seat? hopen
    rw [← hticket]
    exact ne_of_spares hspares ((seats_getElem? hn).trans (congrArg some hs))
  · exact ⟨run.stand, hn, hother nofun (Or.inl rfl)⟩

/-- Nor does a course of events stop it, and it takes no more turns than it has left. -/
theorem secure_course (h : t.Orderly) (hn : t.runs[n]? = some run) (hsecure : run.Secure t.locks)
    (hcourse : t.run? events = some u) :
    ∃ stand, u.runs[n]? = some { run with stand } ∧ Run.Secure u.locks { run with stand } ∧
      stand.stepsLeft + turns n events ≤ run.stand.stepsLeft := by
  refine (course?_induction (P := fun events u => u.Orderly ∧
    ∃ stand, u.runs[n]? = some { run with stand } ∧ Run.Secure u.locks { run with stand } ∧
      stand.stepsLeft + turns n events ≤ run.stand.stepsLeft)
    ⟨h, run.stand, hn, hsecure, Nat.le_refl _⟩ ?_ hcourse).2
  rintro es v e w - ⟨hv, stand, hvn, hvsecure, hless⟩ he
  obtain ⟨stand', hwn, hwsecure, hless'⟩ := hv.secure_next hvn hvsecure he
  refine ⟨hv.next he, stand', hwn, hwsecure, ?_⟩
  have happend : turns n (es ++ [e]) = turns n es + turns n [e] := List.countP_append
  have hless' : stand'.stepsLeft + turns n [e] ≤ stand.stepsLeft := hless'
  omega

end Orderly

/-! ## It returns -/

/-- The next step of a run that has its lock can be taken. -/
theorem exists_go (hn : t.runs[n]? = some run) (hopen : run.stand.isOpen = true)
    (hholds : t.locks.holds run.stand.ticket = true) :
    ∃ stand locks state log, t.Turn n run stand locks state log ∧
      t.next? (.go n) = some ({ t with locks, state, log }.moved n run stand) := by
  have hgo : t.next? (.go n) = t.goOn? n run := by rw [next?, hn, Option.bind_some]
  have hcan : ∃ u, t.goOn? n run = some u := by
    unfold goOn?
    split
    next k hstand =>
      rw [hstand] at hholds
      exact ⟨_, if_pos hholds⟩
    next => exact ⟨_, rfl⟩
    next k result hstand =>
      obtain ⟨c, hc, hheld⟩ := LockTable.claim?_of_holds hholds
      have hplace : t.locks.claimAt? k (· = .held) = some c := by
        rw [hstand] at hc
        exact LockTable.claimAt?_eq_some.mpr ⟨hc, decide_eq_true hheld⟩
      simp only [LockTable.next?, hplace, Option.map_some]
      exact ⟨_, rfl⟩
    next hqueued hdue hended =>
      cases hstand : run.stand with
      | queued k => exact absurd hstand (hqueued k)
      | working k progress =>
        cases progress with
        | due phase => exact absurd hstand (hdue k phase)
        | ended result => exact absurd hstand (hended k result)
      | lapsed | returned | dropped =>
        rw [hstand] at hopen
        cases hopen
  obtain ⟨u, hu⟩ := hcan
  obtain ⟨stand, locks, state, log, hturn, rfl⟩ := turn_of_goOn? hu
  exact ⟨stand, locks, state, log, hturn, hgo.trans hu⟩

/-- A run that has its lock returns if it goes on alone, in as many steps as it has left at most, and
comes to what was to come of it. -/
theorem exists_returned (hn : t.runs[n]? = some run)
    (hsecure : run.Secure t.locks) :
    ∃ m u k result, m ≤ run.stand.stepsLeft ∧ t.run? (List.replicate m (.go n)) = some u ∧
      u.runs[n]? = some { run with stand := .returned k result } ∧
      (.ended result, u.state) = run.toCome t.locks t.state := by
  -- On the steps that are left; steps differ in how far they bring a run.
  induction hleft : run.stand.stepsLeft using Nat.strongRecOn generalizing t run with
  | _ left ih =>
    subst hleft
    rcases hsecure with ⟨hopen, hholds⟩ | ⟨k, result, hreturned⟩
    · obtain ⟨stand, locks, state, log, hturn, hgo⟩ := exists_go hn hopen hholds
      have hmoved : ({ t with locks, state, log }.moved n run stand).runs[n]? =
          some { run with stand } := List.getElem?_set_self (List.getElem?_eq_some_iff.mp hn).1
      obtain ⟨m, u, k, result, hm, hrun, hu, hcomes⟩ :=
        ih stand.stepsLeft hturn.stepsLeft_lt hmoved (hturn.secure hholds) rfl
      refine ⟨m + 1, u, k, result, Nat.lt_of_le_of_lt hm hturn.stepsLeft_lt, ?_, hu,
        hcomes.trans (hturn.toCome hholds)⟩
      rw [List.replicate_succ, run?, course?, hgo]
      exact hrun
    · refine ⟨0, t, k, result, Nat.zero_le _, rfl, ?_, ?_⟩
      · rw [← hreturned]
        exact hn
      · rw [Run.toCome, hreturned]

/-! ## A run that has no lock yet -/

/-- How a run gets on that waits for its lock under a ticket. -/
inductive Awaits (t : Desk σ α) (n : Nat) (run : Run σ α) (k : Nat) : Prop where
  /-- It has come, and when it asks for the lock it has it or waits for it. -/
  | comes (h : ∀ now, ∃ u, t.next? (.locks (.ask now k)) = some u ∧ u.runs[n]? = some run ∧
      (u.locks.holds k = true ∨ ∃ c, u.locks.claim? k = some c ∧ c.stage.waits = true))
  /-- It waits: when nobody has the lock it can be handed it, and when its time is up it lapses. -/
  | waits {c : Claim} (hc : t.locks.claim? k = some c) (hwaits : c.stage.waits = true)
      (hand : t.locks.isFree c.mutex = true → ∃ u, t.next? (.locks (.hand k)) = some u)
      (lapse : ∃ u, t.next? (.lapse n) = some u ∧
        u.runs[n]? = some { run with stand := .lapsed k })
  /-- It has been handed the lock, and has it when it runs. -/
  | handed (h : ∃ u, t.next? (.locks (.resume k)) = some u ∧ u.runs[n]? = some run ∧
      u.locks.holds k = true)
  | has (h : t.locks.holds k = true)

/-- What nobody quits by can happen at the locks of a desk. -/
theorem next?_locks {l : Locks.Event} (hl : t.locks.next? l = some locks)
    (hquiet : l.quitter? = none) : t.next? (.locks l) = some { t with locks } := by
  simp only [next?, spares_of_quiet hquiet, ↓reduceIte, hl, Option.map_some]

/-- A run that waits for its lock gets on. -/
theorem Orderly.awaits (h : t.Orderly) (hn : t.runs[n]? = some run)
    (hstand : run.stand = .queued k) : t.Awaits n run k := by
  have hseat : run.seat? = some ⟨k, run.revision.resourceId, false⟩ := by rw [Run.seat?, hstand]
  obtain ⟨c, hc, -, hstays, -⟩ : Seat.Taken t.locks ⟨k, run.revision.resourceId, false⟩ :=
    h.seating.taken n _ ((seats_getElem? hn).trans (congrArg some hseat))
  have hc : t.locks.claim? k = some c := hc
  cases hstage : c.stage with
  | arrived =>
    refine .comes fun now => ⟨_, next?_locks (LockTable.map_claimAt?_eq_some.mpr
      ⟨⟨c, hc, decide_eq_true hstage⟩, rfl⟩) rfl, hn, ?_⟩
    simp only [LockTable.ask, hc, LockTable.holds, LockTable.claim?_setStage_self hc]
    cases t.locks.isFree c.mutex with
    | true => exact Or.inl rfl
    | false => exact Or.inr ⟨_, rfl, rfl⟩
  | waiting deadline =>
    have hwaits : c.stage.waits = true := by rw [hstage]; rfl
    refine .waits hc hwaits (fun hfree => ?_) ?_
    · have hplace : t.locks.claimAt? k Stage.waits = some c :=
        LockTable.claimAt?_eq_some.mpr ⟨hc, hwaits⟩
      refine ⟨{ t with locks := t.locks.hand k }, next?_locks ?_ rfl⟩
      simp only [LockTable.next?, hplace, Option.filter_some, hfree, ↓reduceIte, Option.map_some]
    · have hplace : t.locks.next? (.lapse k) = some (t.locks.letGo k true) :=
        LockTable.map_claimAt?_eq_some.mpr ⟨⟨c, hc, Stage.isSuspended_of_waits hwaits⟩, rfl⟩
      refine ⟨{ t with locks := t.locks.letGo k true }.moved n run (.lapsed k), ?_,
        List.getElem?_set_self (List.getElem?_eq_some_iff.mp hn).1⟩
      simp only [next?, hn, Option.bind_some, giveUp?, hstand, hplace, Option.map_some]
  | handed =>
    refine .handed ⟨_, next?_locks (LockTable.map_claimAt?_eq_some.mpr
      ⟨⟨c, hc, decide_eq_true hstage⟩, rfl⟩) rfl, hn, ?_⟩
    simp only [LockTable.resume, hc, hstage, ↓reduceIte, LockTable.holds,
      LockTable.claim?_setStage_self hc, decide_true]
  | held =>
    refine .has ?_
    rw [LockTable.holds, hc]
    exact decide_eq_true hstage
  | leaving looksBack =>
    rw [hstage] at hstays
    cases hstays

end Desk

end InletRegistry
