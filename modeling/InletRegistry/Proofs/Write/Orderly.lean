import InletRegistry.Proofs.Locks.Seat
import InletRegistry.Proofs.Write.Account

/-!
# Order among the runs

What holds of a desk at any moment, whatever the steps of changes do and however runs fall between each
other. Every run that wants its lock or has it keeps its seat at the locks, nothing is left there of one
that is over, what a run has come to is what its calls come to, and every call was made while the lock
was its run's own.
-/

namespace InletRegistry

open InletRegistry.Locks InletRegistry.Time InletRegistry.Write

variable {σ α : Type}

namespace Write.Run

variable {run : Run σ α}

/-- The calls of a run are those that it has come to. -/
def Told (calls : List (Call α)) (run : Run σ α) : Prop :=
  match run.stand with
  | .working _ progress => progress.Told run.revision calls
  | .returned _ result => Account run.revision calls result
  | _ => calls = []

theorem exists_seat? (h : run.stand.isOpen = true) :
    ∃ s, run.seat? = some s ∧ s.ticket = run.stand.ticket := by
  obtain ⟨revision, steps, stand⟩ := run
  cases stand with
  | queued | working => exact ⟨_, rfl, rfl⟩
  | lapsed | returned | dropped => cases h

end Write.Run

namespace Desk

variable {t u : Desk σ α} {run run' : Run σ α} {e : Event σ α} {events : List (Event σ α)} {n m k : Nat}
  {stand : Stand α} {locks : LockTable} {state : σ} {log : List (Entry α)} {progress : Write.Progress α}

theorem seats_getElem? (hn : t.runs[n]? = some run) : t.seats[n]? = some run.seat? := by
  rw [seats, List.getElem?_map, hn, Option.map_some]

/-! ## What a run can do -/

/-- What a run can come to, with the locks, the state and the log. -/
inductive Turn (t : Desk σ α) (n : Nat) (run : Run σ α) :
    Stand α → LockTable → σ → List (Entry α) → Prop where
  /-- It begins to work because the lock is its own. -/
  | enter {k : Nat} (hstand : run.stand = .queued k) (h : t.locks.holds k = true) :
    Turn t n run (.working k (.due .authorizing)) t.locks t.state t.log
  /-- It takes the step that is due. -/
  | step {k : Nat} {phase : Phase} {progress : Write.Progress α} {state : σ} {log : List (Entry α)}
    (hstand : run.stand = .working k (.due phase))
    (h : ((run.steps t.locks).noted (Entry.mk n t.locks)).advance run.revision (t.state, t.log)
      phase = (progress, state, log)) :
    Turn t n run (.working k progress) t.locks state log
  /-- It lets go of the lock. -/
  | leave {k : Nat} {result : Except Failure α} {locks : LockTable}
    (hstand : run.stand = .working k (.ended result))
    (h : t.locks.next? (.release k) = some locks) :
    Turn t n run (.returned k result) locks t.state t.log
  /-- It gives up before it has the lock. -/
  | giveUp {k : Nat} {locks : LockTable} {quit : Locks.Event} {stand : Stand α}
    (hstand : run.stand = .queued k) (h : t.locks.next? quit = some locks)
    (hquit : quit = .lapse k ∧ stand = .lapsed k ∨ quit = .cancel k ∧ stand = .dropped k) :
    Turn t n run stand locks t.state t.log

theorem turn_of_goOn? (h : t.goOn? n run = some u) :
    ∃ stand locks state log, t.Turn n run stand locks state log ∧
      u = { t with locks, state, log }.moved n run stand := by
  unfold goOn? at h
  split at h
  next k hstand =>
    split at h
    next hholds =>
      cases h
      exact ⟨_, _, _, _, .enter hstand hholds, rfl⟩
    next => cases h
  next k phase hstand =>
    cases h
    exact ⟨_, _, _, _, .step hstand rfl, rfl⟩
  next k result hstand =>
    obtain ⟨locks, hlocks, rfl⟩ := Option.map_eq_some_iff.mp h
    exact ⟨_, _, _, _, .leave hstand hlocks, rfl⟩
  next => cases h

theorem turn_of_giveUp? {quit : Nat → Locks.Event} {stand : Nat → Stand α}
    (h : t.giveUp? n run quit stand = some u) (hquit : ∀ k,
      quit k = .lapse k ∧ stand k = .lapsed k ∨ quit k = .cancel k ∧ stand k = .dropped k) :
    ∃ stand locks state log, t.Turn n run stand locks state log ∧
      u = { t with locks, state, log }.moved n run stand := by
  unfold giveUp? at h
  split at h
  next k hstand =>
    obtain ⟨locks, hlocks, rfl⟩ := Option.map_eq_some_iff.mp h
    exact ⟨_, _, _, _, .giveUp hstand hlocks (hquit k), rfl⟩
  next => cases h

/-- The run that an event is about. -/
def Event.run? : Event σ α → Option Nat
  | go n => some n
  | lapse n => some n
  | drop n => some n
  | _ => none

/-- What can happen at a desk: a run is taken, a run takes a turn, something happens at the locks, or
somebody else changes the state. -/
theorem next?_cases (h : t.next? e = some u) :
    (∃ revision steps, e = .take revision steps ∧ u = { t with
      locks := (t.locks.arrive revision.resourceId t.patience).2
      runs := t.runs ++ [⟨revision, steps,
        .queued (t.locks.arrive revision.resourceId t.patience).1⟩] }) ∨
    (∃ n run stand locks state log, e.run? = some n ∧ t.runs[n]? = some run ∧
      t.Turn n run stand locks state log ∧ u = { t with locks, state, log }.moved n run stand) ∨
    (∃ l locks, e = .locks l ∧ spares t.seats l = true ∧ t.locks.next? l = some locks ∧
      u = { t with locks }) ∨
    (∃ state, e = .stir state ∧ u = { t with state }) := by
  cases e with
  | take revision steps => exact .inl ⟨revision, steps, rfl, (Option.some.inj h).symm⟩
  | go n =>
    obtain ⟨run, hrun, h⟩ := Option.bind_eq_some_iff.mp h
    obtain ⟨stand, locks, state, log, hturn, rfl⟩ := turn_of_goOn? h
    exact .inr (.inl ⟨n, run, stand, locks, state, log, rfl, hrun, hturn, rfl⟩)
  | lapse n =>
    obtain ⟨run, hrun, h⟩ := Option.bind_eq_some_iff.mp h
    obtain ⟨stand, locks, state, log, hturn, rfl⟩ :=
      turn_of_giveUp? h fun _ => Or.inl ⟨rfl, rfl⟩
    exact .inr (.inl ⟨n, run, stand, locks, state, log, rfl, hrun, hturn, rfl⟩)
  | drop n =>
    obtain ⟨run, hrun, h⟩ := Option.bind_eq_some_iff.mp h
    obtain ⟨stand, locks, state, log, hturn, rfl⟩ :=
      turn_of_giveUp? h fun _ => Or.inr ⟨rfl, rfl⟩
    exact .inr (.inl ⟨n, run, stand, locks, state, log, rfl, hrun, hturn, rfl⟩)
  | locks l =>
    simp only [next?] at h
    split at h
    next hspares =>
      obtain ⟨locks, hlocks, rfl⟩ := Option.map_eq_some_iff.mp h
      exact .inr (.inr (.inl ⟨l, locks, rfl, hspares, hlocks, rfl⟩))
    next => cases h
  | stir state => exact .inr (.inr (.inr ⟨state, rfl, (Option.some.inj h).symm⟩))

/-! ## What a turn leaves as it is -/

namespace Turn

theorem ticket (h : t.Turn n run stand locks state log) : stand.ticket = run.stand.ticket := by
  cases h with
  | enter hstand | step hstand | leave hstand => rw [hstand]; rfl
  | giveUp hstand _ hquit => rcases hquit with ⟨-, rfl⟩ | ⟨-, rfl⟩ <;> rw [hstand] <;> rfl

/-- At the locks a turn is a move. -/
theorem moves (h : t.Turn n run stand locks state log) :
    Moves t.locks run.seat? (Run.seat? { run with stand }) locks := by
  obtain ⟨revision, steps, old⟩ := run
  cases h with
  | @enter k hstand hholds =>
    obtain rfl : old = .queued k := hstand
    exact .enters hholds
  | @step k phase progress state log hstand =>
    obtain rfl : old = .working k (.due phase) := hstand
    exact .stays
  | @leave k result locks hstand hlocks =>
    obtain rfl : old = .working k (.ended result) := hstand
    exact .quits hlocks rfl
  | @giveUp k locks quit stand hstand hlocks hquit =>
    obtain rfl : old = .queued k := hstand
    rcases hquit with ⟨rfl, rfl⟩ | ⟨rfl, rfl⟩ <;> exact .quits hlocks rfl

/-- A run that is over after its turn has quit its claim by it. -/
theorem left (h : t.Turn n run stand locks state log) (hs : t.locks.Sound)
    (hclosed : stand.isOpen = false) : locks.Quit stand.ticket := by
  cases h with
  | enter | step => cases hclosed
  | leave _ hlocks => exact LockTable.quit_of_next hs hlocks rfl
  | giveUp _ hlocks hquit =>
    rcases hquit with ⟨rfl, rfl⟩ | ⟨rfl, rfl⟩ <;> exact LockTable.quit_of_next hs hlocks rfl

/-- A turn adds calls of the run that takes it, under the locks of that moment, and what the run has
come to is what its calls come to. -/
theorem told (h : t.Turn n run stand locks state log) {calls : List (Call α)}
    (htold : run.Told calls) :
    ∃ more : List (Call α), log = t.log ++ more.map (Entry.mk n t.locks) ∧
      Run.Told (calls ++ more) { run with stand } ∧
      (more ≠ [] → ∃ k progress, run.stand = .working k progress) := by
  obtain ⟨revision, steps, old⟩ := run
  have hnone : t.log = t.log ++ ([] : List (Call α)).map (Entry.mk n t.locks) :=
    (List.append_nil t.log).symm
  cases h with
  | @enter k hstand =>
    obtain rfl : old = .queued k := hstand
    obtain rfl : calls = [] := htold
    exact ⟨[], hnone, Sofar.authorizing, nofun⟩
  | @step k phase progress state log hstand hstep =>
    obtain rfl : old = .working k (.due phase) := hstand
    obtain ⟨more, hlog, htold⟩ :=
      Sofar.advance (steps t.locks) (Entry.mk n t.locks) t.state t.log htold
    rw [hstep] at hlog htold
    exact ⟨more, hlog, htold, fun _ => ⟨k, _, rfl⟩⟩
  | @leave k result locks hstand =>
    obtain rfl : old = .working k (.ended result) := hstand
    exact ⟨[], hnone, by rw [List.append_nil]; exact htold, nofun⟩
  | @giveUp k locks quit stand hstand _ hquit =>
    obtain rfl : old = .queued k := hstand
    obtain rfl : calls = [] := htold
    refine ⟨[], hnone, ?_, nofun⟩
    rcases hquit with ⟨-, rfl⟩ | ⟨-, rfl⟩ <;> rfl

end Turn

/-! ## The calls of a run -/

theorem callsOf_self {more : List (Call α)}
    (hlog : log = t.log ++ more.map (Entry.mk n t.locks)) :
    callsOf { t with locks, state, log } n = t.callsOf n ++ more := by
  simp only [callsOf, hlog, List.filter_append, List.map_append, List.filter_map,
    Function.comp_def, decide_true, List.filter_true, List.map_map, List.map_id']

theorem callsOf_ne {more : List (Call α)}
    (hlog : log = t.log ++ more.map (Entry.mk n t.locks)) (hne : m ≠ n) :
    callsOf { t with locks, state, log } m = t.callsOf m := by
  simp only [callsOf, hlog, List.filter_append, List.filter_map, Function.comp_def,
    decide_eq_false hne.symm, List.filter_false, List.map_nil, List.append_nil]

/-! ## The invariant -/

/-- A call is made while the lock is its run's own, and the lock is in the table. -/
def Locked (t : Desk σ α) (entry : Entry α) : Prop :=
  ∃ run c, t.runs[entry.run]? = some run ∧ entry.locks.claim? run.stand.ticket = some c ∧
    c.id = run.revision.resourceId ∧ c.stage = .held ∧
    entry.locks.mutexes.lookup run.revision.resourceId = some c.mutex

/-- What holds of a desk at any moment. -/
structure Orderly (t : Desk σ α) : Prop where
  seating : Seating t.seats t.locks
  /-- Nothing is left at the locks of a run that is over. -/
  left : ∀ (n : Nat) (run : Run σ α), t.runs[n]? = some run → run.stand.isOpen = false →
    t.locks.Quit run.stand.ticket
  told : ∀ (n : Nat) (run : Run σ α), t.runs[n]? = some run → run.Told (t.callsOf n)
  locked : ∀ entry ∈ t.log, t.Locked entry

namespace Orderly

theorem start {patience : Duration} {state : σ} :
    (Desk.start patience state : Desk σ α).Orderly :=
  ⟨Seating.empty, nofun, nofun, nofun⟩

theorem lt_of_entry (h : t.Orderly) {entry : Entry α} (hentry : entry ∈ t.log) :
    entry.run < t.runs.length := by
  obtain ⟨run, -, hrun, -⟩ := h.locked entry hentry
  exact (List.getElem?_eq_some_iff.mp hrun).1

/-- No call has been made for a run that has not been taken. -/
theorem callsOf_length (h : t.Orderly) : t.callsOf t.runs.length = [] := by
  rw [callsOf, List.map_eq_nil_iff, List.filter_eq_nil_iff]
  intro entry hentry heq
  have hlt := h.lt_of_entry hentry
  have hrun := of_decide_eq_true heq
  omega

theorem take (h : t.Orderly) (revision : Revision) (steps : LockTable → Steps σ α) :
    Orderly { t with
      locks := (t.locks.arrive revision.resourceId t.patience).2
      runs := t.runs ++ [⟨revision, steps,
        .queued (t.locks.arrive revision.resourceId t.patience).1⟩] } := by
  have harrive : t.locks.next? (.arrive revision.resourceId t.patience) =
      some (t.locks.arrive revision.resourceId t.patience).2 := rfl
  have hseating := h.seating.concat (.claims revision.resourceId t.patience)
  generalize hrun : (⟨revision, steps,
    .queued (t.locks.arrive revision.resourceId t.patience).1⟩ : Run σ α) = new
  have hold : ∀ {m : Nat} {run : Run σ α}, (t.runs ++ [new])[m]? = some run →
      t.runs[m]? = some run ∨ (m = t.runs.length ∧ run = new) := by
    intro m run hm
    rw [List.getElem?_append] at hm
    split at hm
    · exact Or.inl hm
    next hle =>
      obtain ⟨hlt, hget⟩ := List.getElem?_eq_some_iff.mp hm
      rw [List.length_singleton] at hlt
      exact Or.inr ⟨by omega, List.mem_singleton.mp (List.mem_of_getElem? hm)⟩
  refine ⟨?_, ?_, ?_, ?_⟩
  · rw [seats, List.map_append, ← hrun]
    exact hseating
  · intro m run hm hclosed
    rcases hold hm with hm | ⟨-, rfl⟩
    · exact (h.left m run hm hclosed).next harrive
    · rw [← hrun] at hclosed
      cases hclosed
  · intro m run hm
    rcases hold hm with hm | ⟨rfl, rfl⟩
    · exact h.told m run hm
    · show run.Told (t.callsOf t.runs.length)
      rw [h.callsOf_length, ← hrun]
      rfl
  · intro entry hentry
    obtain ⟨run, c, hget, hlocked⟩ := h.locked entry hentry
    refine ⟨run, c, ?_, hlocked⟩
    rw [← hget]
    exact List.getElem?_append_left (h.lt_of_entry hentry)

/-- Whoever calls a step has the lock. -/
theorem locked_of_working (h : t.Orderly) (hn : t.runs[n]? = some run)
    (hstand : run.stand = .working k progress) :
    ∃ c, t.locks.claim? k = some c ∧ c.id = run.revision.resourceId ∧ c.stage = .held ∧
      t.locks.mutexes.lookup run.revision.resourceId = some c.mutex := by
  have hseat : run.seat? = some ⟨k, run.revision.resourceId, true⟩ := by rw [Run.seat?, hstand]
  obtain ⟨c, hc, hid, hheld⟩ : ∃ c, t.locks.claim? k = some c ∧ c.id = run.revision.resourceId ∧
      c.stage = .held :=
    h.seating.held ((seats_getElem? hn).trans (congrArg some hseat)) rfl
  refine ⟨c, hc, hid, hheld, ?_⟩
  rw [← hid]
  exact h.seating.sound.seated c (LockTable.mem_of_claim? hc).1

theorem turn (h : t.Orderly) (hn : t.runs[n]? = some run)
    (hturn : t.Turn n run stand locks state log) :
    ({ t with locks, state, log }.moved n run stand).Orderly := by
  have hlt : n < t.runs.length := (List.getElem?_eq_some_iff.mp hn).1
  have hcases : ∀ {m : Nat} {new : Run σ α}, (t.runs.set n { run with stand })[m]? = some new →
      (m = n ∧ new = { run with stand }) ∨ (m ≠ n ∧ t.runs[m]? = some new) := by
    intro m new hm
    rw [List.getElem?_set] at hm
    split at hm
    next heq => exact Or.inl ⟨heq.symm, (Option.some.inj hm).symm⟩
    next hne => exact Or.inr ⟨fun heq => hne heq.symm, hm⟩
  obtain ⟨more, hlog, htold, hworking⟩ := hturn.told (h.told n run hn)
  refine ⟨?_, ?_, ?_, ?_⟩
  · have hseats : seats ({ t with locks, state, log }.moved n run stand) =
        t.seats.set n (Run.seat? { run with stand }) := List.map_set
    rw [hseats]
    exact h.seating.set (seats_getElem? hn) hturn.moves
  · intro m new hm hclosed
    rcases hcases hm with ⟨-, rfl⟩ | ⟨-, hold⟩
    · exact hturn.left h.seating.sound hclosed
    · rcases hturn.moves.locks_cases with hsame | ⟨e, hlocks, -⟩
      · show locks.Quit new.stand.ticket
        rw [hsame]
        exact h.left m new hold hclosed
      · exact (h.left m new hold hclosed).next hlocks
  · intro m new hm
    show new.Told (callsOf { t with locks, state, log } m)
    rcases hcases hm with ⟨rfl, rfl⟩ | ⟨hne, hold⟩
    · rw [callsOf_self hlog]
      exact htold
    · rw [callsOf_ne hlog hne]
      exact h.told m new hold
  · have hself : (t.runs.set n { run with stand })[n]? = some { run with stand } :=
      List.getElem?_set_self hlt
    intro entry hentry
    have hmem : entry ∈ t.log ++ more.map (Entry.mk n t.locks) := hlog ▸ hentry
    rcases List.mem_append.mp hmem with hentry | hentry
    · obtain ⟨old, c, hold, hclaim, hlocked⟩ := h.locked entry hentry
      by_cases heq : entry.run = n
      · rw [heq, hn] at hold
        cases hold
        refine ⟨{ run with stand }, c, by rw [heq]; exact hself, ?_, hlocked⟩
        rw [← hclaim, ← hturn.ticket]
      · exact ⟨old, c, (List.getElem?_set_ne (Ne.symm heq)).trans hold, hclaim, hlocked⟩
    · obtain ⟨call, hcall, rfl⟩ := List.mem_map.mp hentry
      obtain ⟨k, progress, hstand⟩ := hworking (List.ne_nil_of_mem hcall)
      obtain ⟨c, hc, hlocked⟩ := h.locked_of_working hn hstand
      refine ⟨_, c, hself, ?_, hlocked⟩
      show t.locks.claim? stand.ticket = some c
      rw [hturn.ticket, hstand]
      exact hc

theorem next (h : t.Orderly) (he : t.next? e = some u) : u.Orderly := by
  rcases next?_cases he with ⟨revision, steps, -, rfl⟩ | ⟨n, run, stand, locks, state, log, -, hn,
    hturn, rfl⟩ | ⟨l, locks, -, hspares, hlocks, rfl⟩ | ⟨state, -, rfl⟩
  · exact h.take revision steps
  · exact h.turn hn hturn
  · exact ⟨h.seating.next hspares hlocks,
      fun n run hn hclosed => (h.left n run hn hclosed).next hlocks, h.told, h.locked⟩
  · exact ⟨h.seating, h.left, h.told, h.locked⟩

/-- Every course of events leaves a desk orderly. -/
theorem course (h : t.Orderly) (hcourse : t.run? events = some u) : u.Orderly :=
  course?_invariant h (fun _ _ _ ht he => ht.next he) hcourse

end Orderly

end Desk

end InletRegistry
