import InletRegistry.Locks.Session

/-!
# Transcripts of sessions

What became of every acquire of a session, in the order in which it came about. A transcript is read
off the session itself: `settleNotes`, `awaitNotes` and `takeNotes` go the way that `settle`, `await`
and `take` go, and note what runs there. A note names the one who waits for the outcome, and what a
session tells is what is noted (`take_told`).
-/

namespace InletRegistry.Locks

open InletRegistry.Time

/-- Something that becomes of an acquire. -/
inductive Note where
  /-- It has come for the lock of a resource at an instant, and is ready to wait for some time. -/
  | came (w : Waiter) (id : String) (since : Nat) (patience : Duration)
  /-- The lock was granted at an instant. -/
  | granted (w : Waiter) (id : String) (now : Nat)
  /-- The lock was not to be had in time. -/
  | lapsed (w : Waiter) (id : String) (patience : Duration) (now : Nat)
  /-- It was dropped. -/
  | dropped (w : Waiter)

namespace Note

/-- The ticket of an acquire that has come. -/
def came? : Note → Option Nat
  | came w _ _ _ => some w.ticket
  | _ => none

/-- The ticket of an acquire that comes to an end. -/
def ended? : Note → Option Nat
  | granted w _ _ => some w.ticket
  | lapsed w _ _ _ => some w.ticket
  | dropped w => some w.ticket
  | came _ _ _ _ => none

/-- What one who waits is told. -/
def told? : Note → Option (Waiter × Outcome)
  | granted w id _ => some (w, .ok id)
  | lapsed w id patience _ => some (w, .error (LockTable.busy id patience))
  | _ => none

/-- What the one who drives the session is told. -/
def answer? (n : Note) : Option Outcome :=
  n.told?.bind fun (w, o) => if w.inBackground then none else some o

/-- What comes about in the background. -/
def happening? (n : Note) : Option Happening :=
  n.told?.bind fun (w, o) => if w.inBackground then some ⟨w.slot, o⟩ else none

variable {n : Note} {w : Waiter} {o : Outcome}

/-- One who waits in the background is not answered. -/
theorem answer?_of_back (h : n.told? = some (w, o)) (hback : w.inBackground = true) :
    n.answer? = none := by
  simp only [answer?, h, Option.bind_some, hback, ↓reduceIte]

theorem answer?_of_fore (h : n.told? = some (w, o)) (hfore : w.inBackground = false) :
    n.answer? = some o := by
  simp only [answer?, h, Option.bind_some, hfore, Bool.false_eq_true, ↓reduceIte]

end Note

namespace Session

/-! ## Reading a session off -/

/-- A claim that holds its mutex is granted. -/
def grantNotes (s : Session) (ticket : Nat) (id : String) : List Note :=
  match s.waiters.find? (·.ticket = ticket) with
  | some w => [.granted w id s.now]
  | none => []

/-- What becomes of the claim that runs next. -/
def runOneNotes (s : Session) : List Note :=
  match s.table.handed? with
  | some c => s.grantNotes c.ticket c.id
  | none =>
    match s.table.overdue? s.now with
    | some c =>
      match s.waiters.find? (·.ticket = c.ticket) with
      | some w => [.lapsed w c.id c.patience s.now]
      | none => []
    | none => []

/-- What comes about until no claim can run. -/
def settleNotesFor : Nat → Session → List Note
  | 0, _ => []
  | n + 1, s =>
    match s.runOne? with
    | some s' => s.runOneNotes ++ settleNotesFor n s'
    | none => []

def settleNotes (s : Session) : List Note := settleNotesFor (2 * s.table.claims.length + 1) s

/-- What comes about until the outcome is there. -/
def awaitNotesFor : Nat → Session → List Note
  | 0, _ => []
  | n + 1, s =>
    match s.answer, s.table.nextDeadline? with
    | none, some deadline =>
      settleNotes { s with now := max s.now deadline } ++
        awaitNotesFor n { s with now := max s.now deadline }.settle
    | _, _ => []

def awaitNotes (s : Session) : List Note := awaitNotesFor (s.table.claims.length + 1) s

/-- A claim comes, and may be granted at once. -/
def beginNotes (s : Session) (id slot : String) (patience : Duration) (inBackground : Bool) :
    List Note :=
  let (ticket, table) := s.table.acquire s.now id patience
  let w : Waiter := ⟨ticket, slot, inBackground⟩
  .came w id s.now patience ::
    if table.holds ticket then [.granted w id s.now] else []

/-- What comes about in a step. -/
def takeNotes (s : Session) (step : Step) : List Note :=
  let s := { s with answer := none, happenings := [] }
  match step with
  | .acquire id slot patience =>
    let begun := s.begin id slot patience false
    s.beginNotes id slot patience false ++ begun.settleNotes ++ begun.settle.awaitNotes
  | .spawn id slot patience =>
    s.beginNotes id slot patience true ++ (s.begin id slot patience true).settleNotes
  | .release slot =>
    match s.guards.lookup slot with
    | none => s.settleNotes
    | some ticket =>
      settleNotes { s with
        table := s.table.release ticket
        guards := s.guards.filter (·.1 ≠ slot) }
  | .cancel slot =>
    match s.waiters.find? fun w => w.slot = slot ∧ w.inBackground with
    | none => s.settleNotes
    | some w =>
      .dropped w :: settleNotes { s with
        table := s.table.cancel w.ticket
        waiters := s.waiters.filter (·.ticket ≠ w.ticket) }
  | .advance milliseconds => settleNotes { s with now := s.now + milliseconds }

/-- What comes about in a session of some steps. -/
def notes (s : Session) : List Step → List Note
  | [] => []
  | step :: steps => s.takeNotes step ++ (s.take step).2.notes steps

/-! ## What is told is what is noted -/

variable {s s' s'' : Session} {ns ms : List Note}

/-- What is told between two moments: the answer is the last one for the one who drives the session,
and the happenings are put in front of those that are there. -/
def Told (ns : List Note) (s s' : Session) : Prop :=
  s'.answer = (ns.filterMap Note.answer?).getLast?.or s.answer ∧
    s'.happenings = (ns.filterMap Note.happening?).reverse ++ s.happenings

theorem Told.trans (h : Told ns s s') (h' : Told ms s' s'') : Told (ns ++ ms) s s'' := by
  constructor
  · rw [h'.1, h.1, List.filterMap_append, List.getLast?_append, Option.or_assoc]
  · rw [h'.2, h.2, List.filterMap_append, List.reverse_append, List.append_assoc]

/-- Nothing is told where neither the answer nor the happenings change. -/
theorem told_nil (hanswer : s'.answer = s.answer) (hhappenings : s'.happenings = s.happenings) :
    Told [] s s' := ⟨hanswer, hhappenings⟩

/-- A note that tells nothing may be put in front. -/
theorem Told.cons {n : Note} (h : Told ns s s') (hn : n.told? = none) : Told (n :: ns) s s' := by
  have hanswer : n.answer? = none := by rw [Note.answer?, hn]; rfl
  have hhappening : n.happening? = none := by rw [Note.happening?, hn]; rfl
  refine ⟨?_, ?_⟩
  · rw [List.filterMap_cons_none hanswer]
    exact h.1
  · rw [List.filterMap_cons_none hhappening]
    exact h.2

theorem tell_told {n : Note} {w : Waiter} {o : Outcome} (hn : n.told? = some (w, o)) :
    Told [n] s (s.tell w o) := by
  unfold Told tell
  simp only [List.filterMap_cons, List.filterMap_nil, Note.answer?, Note.happening?, hn,
    Option.bind_some]
  cases w.inBackground <;> exact ⟨rfl, rfl⟩

theorem granted_told (s : Session) (k : Nat) (id : String) :
    Told (s.grantNotes k id) s (s.granted k id) := by
  unfold grantNotes granted
  cases s.waiters.find? (·.ticket = k) with
  | none => exact told_nil rfl rfl
  | some w => exact tell_told (s := s.putGuard w.slot k) rfl

theorem runOne?_told (h : s.runOne? = some s') : Told s.runOneNotes s s' := by
  cases hhanded : s.table.handed? with
  | some c =>
    simp only [runOne?, hhanded] at h
    simp only [runOneNotes, hhanded]
    obtain rfl := Option.some.inj h
    exact granted_told { s with table := s.table.resume c.ticket } c.ticket c.id
  | none =>
    cases hoverdue : s.table.overdue? s.now with
    | none =>
      simp only [runOne?, hhanded, hoverdue] at h
      cases h
    | some c =>
      simp only [runOne?, hhanded, hoverdue] at h
      simp only [runOneNotes, hhanded, hoverdue]
      cases hwaiter : s.waiters.find? (·.ticket = c.ticket) with
      | some w =>
        simp only [hwaiter] at h
        obtain rfl := Option.some.inj h
        exact tell_told (s := { s with table := s.table.expire c.ticket })
          (n := .lapsed w c.id c.patience s.now) rfl
      | none =>
        simp only [hwaiter] at h
        obtain rfl := Option.some.inj h
        exact told_nil rfl rfl

theorem settleFor_told (n : Nat) (s : Session) : Told (settleNotesFor n s) s (settleFor n s) := by
  induction n generalizing s with
  | zero => exact told_nil rfl rfl
  | succ n ih =>
    rw [settleNotesFor, settleFor]
    cases hrun : s.runOne? with
    | none => exact told_nil rfl rfl
    | some s' => exact (runOne?_told hrun).trans (ih s')

theorem settle_told (s : Session) : Told s.settleNotes s s.settle := settleFor_told _ s

theorem awaitFor_told (n : Nat) (s : Session) : Told (awaitNotesFor n s) s (awaitFor n s) := by
  induction n generalizing s with
  | zero => exact told_nil rfl rfl
  | succ n ih =>
    cases hanswer : s.answer with
    | some o =>
      simp only [awaitNotesFor, awaitFor, hanswer]
      exact told_nil rfl rfl
    | none =>
      cases hdeadline : s.table.nextDeadline? with
      | none =>
        simp only [awaitNotesFor, awaitFor, hanswer, hdeadline]
        exact told_nil rfl rfl
      | some deadline =>
        simp only [awaitNotesFor, awaitFor, hanswer, hdeadline]
        have hsettled := settle_told { s with now := max s.now deadline, answer := none }
        refine Told.trans ⟨?_, hsettled.2⟩ (ih _)
        rw [hanswer]
        exact hsettled.1

theorem begin_told (s : Session) (id slot : String) (patience : Duration) (inBackground : Bool) :
    Told (s.beginNotes id slot patience inBackground) s (s.begin id slot patience inBackground) := by
  unfold beginNotes begin
  obtain ⟨ticket, table⟩ := s.table.acquire s.now id patience
  refine Told.cons ?_ rfl
  simp only
  split
  · have hgranted := granted_told { s with
      table, waiters := ⟨ticket, slot, inBackground⟩ :: s.waiters } ticket id
    simp only [grantNotes, List.find?_cons, decide_true] at hgranted
    exact hgranted
  · exact told_nil rfl rfl

/-- **What a step tells is what is noted of it.** -/
theorem take_told (s : Session) (step : Step) :
    Told (s.takeNotes step) { s with answer := none, happenings := [] } (s.take step).2 := by
  cases step with
  | acquire id slot patience =>
    exact ((begin_told _ id slot patience false).trans (settle_told _)).trans (awaitFor_told _ _)
  | spawn id slot patience => exact (begin_told _ id slot patience true).trans (settle_told _)
  | release slot =>
    simp only [takeNotes, take]
    cases s.guards.lookup slot <;> exact settle_told _
  | cancel slot =>
    simp only [takeNotes, take]
    cases s.waiters.find? fun w => w.slot = slot ∧ w.inBackground with
    | none => exact settle_told _
    | some w => exact (settle_told _).cons rfl
  | advance milliseconds => exact settle_told _

end Session

end InletRegistry.Locks
