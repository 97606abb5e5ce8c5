import InletRegistry.Proofs.Write.Desk
import InletRegistry.Write.Pipeline

/-!
# A run alone is a course of events

`runAlone` acquires a lock, takes all steps of a change and lets go of the lock in one operation. What it
comes to is what some course of events comes to at a desk, so whatever holds of runs side by side
holds of the runs that are executed.
-/

namespace InletRegistry.Desk

open InletRegistry.Locks InletRegistry.Time InletRegistry.Write

variable {σ α : Type} {t : Desk σ α} {r : Revision} {steps : LockTable → Steps σ α}
  {stand stand' : Stand α} {locks locks' : LockTable} {state state' : σ}
  {log log' : List (Entry α)} {k : Nat}

/-- That some course of events leads from one desk to another. -/
abbrev Leads (t u : Desk σ α) : Prop := InletRegistry.Leads next? (fun _ => True) t u

theorem drift_leads (h : locks.Drifts locks') :
    Leads { t with locks } { t with locks := locks' } := by
  refine h.map (fun locks => { t with locks }) fun locks l locks' hquiet hl => ?_
  exact Leads.of_next (next?_locks hl hquiet) trivial

/-- The desk with one more run. -/
def joined (t : Desk σ α) (r : Revision) (steps : LockTable → Steps σ α) (stand : Stand α)
    (locks : LockTable) (state : σ) (log : List (Entry α)) : Desk σ α :=
  { t with locks, state, log, runs := t.runs ++ [⟨r, steps, stand⟩] }

theorem set_joined (a b : Run σ α) : (t.runs ++ [a]).set t.runs.length b = t.runs ++ [b] := by
  simp only [List.set_append, Nat.lt_irrefl, ↓reduceIte, Nat.sub_self, List.set_cons_zero]

/-- What the last run does is an event. -/
theorem go_leads
    (h : (t.joined r steps stand locks state log).goOn? t.runs.length ⟨r, steps, stand⟩ =
      some (t.joined r steps stand' locks' state' log')) :
    (t.joined r steps stand locks state log).Leads
      (t.joined r steps stand' locks' state' log') := by
  refine Leads.of_next (e := .go t.runs.length) ?_ trivial
  have hrun : (t.joined r steps stand locks state log).runs[t.runs.length]? =
      some ⟨r, steps, stand⟩ := List.getElem?_concat_length
  rw [next?, hrun]
  exact h

/-- To go on with the last run, as long as it has not ended, is a course of events. -/
theorem goOn_leads (steps : LockTable → Steps σ α) (locks : LockTable) (m : Nat)
    (x : Write.Progress α × σ × List (Entry α)) :
    let y := (((steps locks).noted (Entry.mk t.runs.length locks)).goOn r)^[m] x
    (t.joined r steps (.working k x.1) locks x.2.1 x.2.2).Leads
      (t.joined r steps (.working k y.1) locks y.2.1 y.2.2) := by
  induction m with
  | zero => exact Leads.refl _ _ _
  | succ m ih =>
    rw [Function.iterate_succ_apply']
    refine ih.trans ?_
    generalize (((steps locks).noted (Entry.mk t.runs.length locks)).goOn r)^[m] x = y
    obtain ⟨progress, state, log⟩ := y
    cases progress with
    | due phase =>
      refine go_leads ?_
      simp only [goOn?, moved, joined, set_joined, Steps.goOn]
    | ended result => exact Leads.refl _ _ _

/-- A run whose lock is its own is carried through by events. -/
theorem runLocked_leads (steps : LockTable → Steps σ α) (state : σ) (log : List (Entry α))
    (hs : locks.Sound) (hholds : locks.holds k = true) :
    ∃ log', (t.joined r steps (.queued k) locks state log).Leads
      (t.joined r steps (.returned k (runLocked steps r k locks state).1)
        (runLocked steps r k locks state).2.1 (runLocked steps r k locks state).2.2 log') := by
  have henter : (t.joined r steps (.queued k) locks state log).Leads
      (t.joined r steps (.working k (.due .authorizing)) locks state log) := by
    refine go_leads ?_
    simp only [goOn?, moved, joined, set_joined, hholds, ↓reduceIte]
  have hwork := goOn_leads (t := t) (r := r) (k := k) steps locks 4 (.due .authorizing, state, log)
  obtain ⟨hresult, hstate⟩ :=
    noted_run (steps locks) (Entry.mk t.runs.length locks) r state log
  rw [Steps.goOn_four] at hwork
  simp only [hresult, hstate] at hwork
  -- The lock is let go of, and what remains of the release happens beside the run.
  obtain ⟨c, hc, hheld⟩ := LockTable.claim?_of_holds hholds
  obtain ⟨hnext, hdrifts⟩ := LockTable.release_drifts hs hc hheld
  have hleave : ∀ (result : Except Failure α) (state : σ) (log : List (Entry α)),
      (t.joined r steps (.working k (.ended result)) locks state log).Leads
        (t.joined r steps (.returned k result) (locks.release k) state log) := by
    intro result state log
    have hlet : (t.joined r steps (.working k (.ended result)) locks state log).Leads
        (t.joined r steps (.returned k result) (locks.letGo k true) state log) := by
      refine go_leads ?_
      simp only [goOn?, moved, joined, set_joined, hnext, Option.map_some]
    exact hlet.trans (drift_leads (t := t.joined r steps (.returned k result) locks state log) hdrifts)
  exact ⟨_, (henter.trans hwork).trans (hleave _ _ _)⟩

/-- **A run alone is a course of events** at a desk that has its locks and works on its state, and the
run comes to the same there. -/
theorem runAlone_leads (hs : t.locks.Sound) (steps : LockTable → Steps σ α) (r : Revision)
    (now : Nat) :
    let alone := runAlone steps r t.patience now t.locks t.state
    ∃ u run, t.Leads u ∧ u.locks = alone.2.1 ∧ u.state = alone.2.2 ∧ u.runs = t.runs ++ [run] ∧
      run.revision = r ∧ run.result? t.patience = some alone.1 := by
  have hacquire := LockTable.acquire_drifts hs now r.resourceId t.patience
  have harrived : (t.locks.arrive r.resourceId t.patience).2.Sound :=
    hs.arrive r.resourceId t.patience
  have hacquired := hacquire.sound harrived
  obtain ⟨c, hc, hstage⟩ := LockTable.claim?_acquire hs now r.resourceId t.patience
  have hqueued : t.Leads (t.joined r steps (.queued (t.locks.acquire now r.resourceId t.patience).1)
      (t.locks.acquire now r.resourceId t.patience).2 t.state t.log) := by
    have htake : t.Leads (t.joined r steps
        (.queued (t.locks.arrive r.resourceId t.patience).1)
        (t.locks.arrive r.resourceId t.patience).2 t.state t.log) :=
      Leads.of_next (e := .take r steps) rfl trivial
    exact htake.trans (drift_leads (t := t.joined r steps _ t.locks t.state t.log) hacquire)
  unfold runAlone
  generalize hacq : t.locks.acquire now r.resourceId t.patience = acquired at *
  obtain ⟨k, locks⟩ := acquired
  simp only at hqueued hc ⊢
  by_cases hholds : locks.holds k = true
  · obtain ⟨log', hrun⟩ := runLocked_leads (t := t) (r := r) steps t.state t.log hacquired hholds
    simp only [hholds, ↓reduceIte]
    exact ⟨_, _, hqueued.trans hrun, rfl, rfl, rfl, rfl, rfl⟩
  · have hwaits : c.stage.waits = true := by
      refine hstage.resolve_left fun hheld => hholds ?_
      rw [LockTable.holds, hc]
      exact decide_eq_true hheld
    obtain ⟨hnext, hdrifts⟩ := LockTable.expire_drifts hc hwaits
    have hlapse : (t.joined r steps (.queued k) locks t.state t.log).Leads
        (t.joined r steps (.lapsed k) (locks.letGo k true) t.state t.log) := by
      refine Leads.of_next (e := .lapse t.runs.length) ?_ trivial
      have hrun : (t.joined r steps (.queued k) locks t.state t.log).runs[t.runs.length]? =
          some ⟨r, steps, .queued k⟩ := List.getElem?_concat_length
      rw [next?, hrun]
      simp only [Option.bind_some, giveUp?, joined, hnext, Option.map_some, moved, set_joined]
    have hgone := drift_leads (t := t.joined r steps (.lapsed k) locks t.state t.log) hdrifts
    simp only [hholds, Bool.false_eq_true, ↓reduceIte]
    exact ⟨_, _, (hqueued.trans hlapse).trans hgone, rfl, rfl, rfl, rfl, rfl⟩

end InletRegistry.Desk
