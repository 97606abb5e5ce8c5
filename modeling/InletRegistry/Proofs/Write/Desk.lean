import InletRegistry.Proofs.Locks.Eviction
import InletRegistry.Proofs.Write.Progress

/-!
# Runs are strict

Whatever the steps of changes do, and however runs fall between each other: a run that does not get its
lock in time calls none of its steps; any other calls them in their order, each only after all before
it have succeeded, and comes to what its calls come to. Once it has its lock it gets to its end. Every
call is made while the lock is the run's own, and nothing of the run is left at the locks once it is
over.
-/

namespace InletRegistry.Desk

open InletRegistry.Locks InletRegistry.Time InletRegistry.Write

variable {σ α : Type} {t u : Desk σ α} {run : Run σ α} {e : Event σ α} {events : List (Event σ α)}
  {n : Nat}

/-! ## The locks of a desk -/

/-- What happens at a desk is an event at its locks, if it is anything to them. -/
theorem locks_next (he : t.next? e = some u) :
    u.locks = t.locks ∨ ∃ l, t.locks.next? l = some u.locks ∧
      ∀ k, l = .cancel k → (∃ n, e = .drop n) ∨ e = .locks (.cancel k) := by
  cases e with
  | take revision steps =>
    cases he
    exact Or.inr ⟨.arrive revision.resourceId t.patience, rfl, nofun⟩
  | go n =>
    obtain ⟨run, -, he⟩ := Option.bind_eq_some_iff.mp he
    unfold goOn? at he
    split at he
    next =>
      split at he
      · cases he
        exact Or.inl rfl
      · cases he
    next =>
      cases he
      exact Or.inl rfl
    next =>
      obtain ⟨locks, hlocks, rfl⟩ := Option.map_eq_some_iff.mp he
      exact Or.inr ⟨_, hlocks, nofun⟩
    next => cases he
  | lapse n =>
    obtain ⟨run, -, he⟩ := Option.bind_eq_some_iff.mp he
    unfold giveUp? at he
    split at he
    next k hstand =>
      obtain ⟨locks, hlocks, rfl⟩ := Option.map_eq_some_iff.mp he
      exact Or.inr ⟨_, hlocks, nofun⟩
    next => cases he
  | drop n =>
    obtain ⟨run, -, he⟩ := Option.bind_eq_some_iff.mp he
    unfold giveUp? at he
    split at he
    next k hstand =>
      obtain ⟨locks, hlocks, rfl⟩ := Option.map_eq_some_iff.mp he
      exact Or.inr ⟨_, hlocks, fun _ _ => Or.inl ⟨n, rfl⟩⟩
    next => cases he
  | locks l =>
    simp only [next?] at he
    split at he
    next hspares =>
      obtain ⟨locks, hlocks, rfl⟩ := Option.map_eq_some_iff.mp he
      refine Or.inr ⟨l, hlocks, ?_⟩
      rintro k rfl
      exact Or.inr rfl
    next => cases he
  | stir state =>
    cases he
    exact Or.inl rfl

/-- The locks of a desk take a course of events, in which a claim is cancelled only if a run is dropped
or somebody else cancels one. -/
theorem locks_course {patience : Duration} {state : σ}
    (h : (Desk.start patience state).run? events = some t) :
    ∃ es, LockTable.empty.run? es = some t.locks ∧
      ((∀ n, .drop n ∉ events) → (∀ k, .locks (.cancel k) ∉ events) → ∀ k, .cancel k ∉ es) := by
  refine course?_induction (P := fun events t => ∃ es, LockTable.empty.run? es = some t.locks ∧
    ((∀ n, .drop n ∉ events) → (∀ k, .locks (.cancel k) ∉ events) → ∀ k, .cancel k ∉ es))
    ⟨[], rfl, fun _ _ _ => List.not_mem_nil⟩ ?_ h
  rintro events t e u - ⟨es, hes, hfree⟩ he
  rcases locks_next he with hsame | ⟨l, hl, hcancel⟩
  · refine ⟨es, by rw [hsame, hes], fun hdrop hother => ?_⟩
    exact hfree (fun n hn => hdrop n (List.mem_append_left _ hn))
      fun k hk => hother k (List.mem_append_left _ hk)
  · refine ⟨es ++ [l], course?_concat hes hl, fun hdrop hother k hk => ?_⟩
    rcases List.mem_append.mp hk with hk | hk
    · exact hfree (fun n hn => hdrop n (List.mem_append_left _ hn))
        (fun k hk => hother k (List.mem_append_left _ hk)) k hk
    · rcases hcancel k (List.mem_singleton.mp hk).symm with ⟨n, rfl⟩ | rfl
      · exact hdrop n (List.mem_append_right _ List.mem_cons_self)
      · exact hother k (List.mem_append_right _ List.mem_cons_self)

/-! ## The pipeline -/

/-- What may be said of a run after a course of events, and of what comes of it. -/
structure Strict (events : List (Event σ α)) (t : Desk σ α) (n : Nat) (run : Run σ α) : Prop where
  /-- A run that did not get its lock in time comes to the failure that says so and has called
  nothing; any other run that is over comes to what its calls come to. -/
  result : ∀ result, run.result? t.patience = some result →
    ((∃ k, run.stand = .lapsed k) ∧ t.callsOf n = [] ∧
      result = .error (LockTable.busy run.revision.resourceId t.patience)) ∨
    ((∃ k, run.stand = .returned k result) ∧ Account run.revision (t.callsOf n) result)
  /-- A run that waits, or was dropped while it waited, has called nothing. -/
  waiting : ∀ k, run.stand = .queued k ∨ run.stand = .dropped k → t.callsOf n = []
  /-- At any moment its calls are in order, none is made twice, and each is made only after all before
  it have succeeded; the version is looked up only if one is claimed. -/
  order : InOrder run.revision (t.callsOf n)
  /-- It is stale, unless a step says so of itself, exactly if all checks before have succeeded and the
  versions differ. -/
  stale : ∀ k result, run.stand = .returned k result → ∀ expected current,
    ((result = .error (.staleRevision run.revision.resourceId expected current) ∧
        ∀ call ∈ t.callsOf n,
          call.failure? ≠ some (.staleRevision run.revision.resourceId expected current)) ↔
      run.revision.version = some expected ∧ expected ≠ current ∧
        t.callsOf n = [.authorize (.ok ()), .verify (.ok ()), .currentVersion (.ok current)])
  /-- Every call is made while the lock is its own and in the table. -/
  locked : ∀ entry ∈ t.log, entry.run = n → entry.locks.holds run.stand.ticket = true ∧
    (entry.locks.mutexes.lookup run.revision.resourceId).isSome
  /-- While it waits for its lock it gets on: it can ask, be handed the lock, run with it, or lapse. -/
  awaits : ∀ k, run.stand = .queued k → t.Awaits n run k
  /-- Once it has its lock it keeps it whatever happens, and each of its turns brings it further; it can
  take the next one until it has returned, and then its calls are complete. -/
  advances : run.stand.isOpen = true → t.locks.holds run.stand.ticket = true →
    ∀ more u, t.run? more = some u → ∃ stand, u.runs[n]? = some { run with stand } ∧
      stand.stepsLeft + turns n more ≤ run.stand.stepsLeft ∧
      ((stand.isOpen = true ∧ u.locks.holds stand.ticket = true ∧ ∃ v, u.next? (.go n) = some v) ∨
        ∃ k result, stand = .returned k result ∧ Account run.revision (u.callsOf n) result)
  /-- Where nothing comes between its turns it returns after six at most, and what is executed and what
  comes of it are as in `Steps.run`. -/
  returns : run.stand.isOpen = true → t.locks.holds run.stand.ticket = true →
    ∃ m u k result, m ≤ 6 ∧ t.run? (List.replicate m (.go n)) = some u ∧
      u.runs[n]? = some { run with stand := .returned k result } ∧
      Account run.revision (u.callsOf n) result ∧
      ∀ k, run.stand = .queued k → (result, u.state) = (run.steps t.locks).run run.revision t.state
  /-- Once it is over it neither holds the lock nor waits for it. -/
  released : run.stand.isOpen = false → t.locks.Quit run.stand.ticket
  /-- While no claim is in the middle of a step the lock is in the table exactly if it is held or
  awaited, unless somebody went away while he waited for a lock. -/
  evicted : t.locks.Settled → (∀ n, .drop n ∉ events) → (∀ k, .locks (.cancel k) ∉ events) →
    ((t.locks.mutexes.lookup run.revision.resourceId).isSome ↔
      t.locks.Wanted run.revision.resourceId)

/-- **Runs are strict.** Whatever the steps of changes do, whatever anybody else does at the locks or to
the state, and however runs fall between each other, every run keeps to the order of its steps and to
its lock, and comes to what its calls come to. -/
theorem runs_are_strict {patience : Duration} {state : σ}
    (h : (Desk.start patience state).run? events = some t) (hn : t.runs[n]? = some run) :
    Strict events t n run := by
  have horderly : t.Orderly := Orderly.start.course h
  have htold := horderly.told n run hn
  refine ⟨?_, ?_, ?_, ?_, ?_, fun k hstand => horderly.awaits hn hstand, ?_, ?_,
    horderly.left n run hn, ?_⟩
  · intro result hresult
    obtain ⟨revision, steps, stand⟩ := run
    cases stand with
    | lapsed k => exact Or.inl ⟨⟨k, rfl⟩, htold, (Option.some.inj hresult).symm⟩
    | returned k result' =>
      obtain rfl : result' = result := Option.some.inj hresult
      exact Or.inr ⟨⟨k, rfl⟩, htold⟩
    | queued | working | dropped => cases hresult
  · obtain ⟨revision, steps, stand⟩ := run
    rintro k (rfl | rfl) <;> exact htold
  · obtain ⟨revision, steps, stand⟩ := run
    cases stand with
    | working k progress =>
      cases progress with
      | due phase => exact Sofar.inOrder htold
      | ended result => exact Account.inOrder htold
    | returned k result => exact Account.inOrder htold
    | queued | lapsed | dropped =>
      have hnone : t.callsOf n = [] := htold
      rw [hnone]
      exact InOrder.nil
  · obtain ⟨revision, steps, stand⟩ := run
    rintro k result rfl expected current
    exact Account.stale_iff htold expected current
  · rintro entry hentry rfl
    obtain ⟨run', c, hrun, hclaim, hid, hheld, hmutex⟩ := horderly.locked entry hentry
    obtain rfl := Option.some.inj (hn.symm.trans hrun)
    refine ⟨?_, by rw [hmutex]; rfl⟩
    rw [LockTable.holds, hclaim]
    exact decide_eq_true hheld
  · intro hopen hholds more u hcourse
    obtain ⟨stand, hu, hsecure, hless⟩ := horderly.secure_course hn (Or.inl ⟨hopen, hholds⟩) hcourse
    refine ⟨stand, hu, hless, ?_⟩
    rcases hsecure with ⟨hopen', hholds'⟩ | ⟨k, result, rfl⟩
    · obtain ⟨_, _, _, _, -, hgo⟩ := exists_go hu hopen' hholds'
      exact Or.inl ⟨hopen', hholds', _, hgo⟩
    · exact Or.inr ⟨k, result, rfl, (horderly.course hcourse).told n _ hu⟩
  · intro hopen hholds
    obtain ⟨m, u, k, result, hm, hcourse, hu, hcomes⟩ := exists_returned hn (Or.inl ⟨hopen, hholds⟩)
    refine ⟨m, u, k, result, Nat.le_trans hm run.stand.stepsLeft_le, hcourse, hu,
      (horderly.course hcourse).told n _ hu, fun j hstand => ?_⟩
    simp only [Run.toCome, hstand, Steps.goOn_four, Prod.mk.injEq, Write.Progress.ended.injEq]
      at hcomes
    exact Prod.ext hcomes.1 hcomes.2
  · intro hsettled hdrop hother
    obtain ⟨es, hes, hfree⟩ := locks_course h
    obtain ⟨hentry, -, hforsaken⟩ := LockTable.entry_iff_wanted_or_forsaken hes hsettled
    rw [hentry]
    constructor
    · rintro (hwanted | hforsaken')
      · exact hwanted
      · exact absurd hforsaken' (hforsaken (hfree hdrop hother) _)
    · exact Or.inl

/-- The steps of a change of a counter: anybody may make it, and it puts the counter up by one. -/
def countUp : Steps Nat Nat where
  authorize s := (.ok (), s)
  verify s := (.ok (), s)
  currentVersion s := (.ok s, s)
  execute s := (.ok (s + 1), s + 1)

/-- Two runs claim the first version of a counter, and a third does not wait for its lock. -/
def contention : List (Event Nat Nat) :=
  [.take ⟨some 0, "a", "r1"⟩ fun _ => countUp, .take ⟨some 0, "b", "r1"⟩ fun _ => countUp,
    .take ⟨none, "", "r1"⟩ fun _ => countUp, .locks (.ask 0 1), .locks (.ask 0 3),
    .locks (.ask 0 5), .go 0, .go 0, .go 0, .lapse 2, .go 0, .go 0, .go 0, .locks (.hand 3),
    .locks (.resume 3), .locks (.depart 1), .locks (.lookBack "r1"), .go 1, .go 1, .go 1, .go 1,
    .go 1, .locks (.depart 3), .locks (.lookBack "r1"), .locks (.depart 5),
    .locks (.lookBack "r1")]

/-- One of the runs is executed, one is stale, one lapses, and no lock is left. -/
theorem runs_are_strict_contention :
    ∃ t run, (Desk.start (.ofSeconds 1) 0).run? contention = some t ∧ t.runs[1]? = some run ∧
      t.runs.map (·.result? t.patience) = [some (.ok 1), some (.error (.staleRevision "r1" 0 1)),
        some (.error (LockTable.busy "r1" (.ofSeconds 1)))] ∧
      t.locks.mutexes = [] ∧ Strict contention t 1 run := by
  have hresults : ((Desk.start (.ofSeconds 1) 0).run? contention).map (fun t =>
      (t.runs.map (·.result? t.patience), t.locks.mutexes)) =
      some ([some (.ok 1), some (.error (.staleRevision "r1" 0 1)),
        some (.error (LockTable.busy "r1" (.ofSeconds 1)))], []) := by
    decide
  obtain ⟨t, ht, hvalues⟩ := Option.map_eq_some_iff.mp hresults
  rw [Prod.mk.injEq] at hvalues
  have hlength : 1 < t.runs.length := by
    rw [← List.length_map (·.result? t.patience), hvalues.1]
    decide
  exact ⟨t, t.runs[1], ht, List.getElem?_eq_getElem hlength, hvalues.1, hvalues.2,
    runs_are_strict ht (List.getElem?_eq_getElem hlength)⟩

end InletRegistry.Desk
