import InletRegistry.Proofs.Registry.Upshot

/-!
# Answers in either order

A service is **sound** when its locks are, and when an order waits only under the ticket of a claim on
the lock of its own inlet. A sound service that nobody else turns to answers a request as the upshot of
the request says, and visits the lock of the inlet if the request is an order (`answer_eq`). The upshot
of a request hangs on nothing that a request for another inlet changes.
-/

namespace InletRegistry.Registry

open InletRegistry.Access InletRegistry.Lookup InletRegistry.Text InletRegistry.Time

/-- The parts of an update without a fault are those that were sent. -/
theorem body_of_checkUpdate {id : String} {body : Option UpdateRequest} {tag : RevisionTag}
    {p : Proposal} (h : checkUpdate id body = .ok (tag, p)) :
    body = some ⟨some tag, some p⟩ := by
  unfold checkUpdate at h
  split at h
  next => cases h
  next request =>
    split at h
    next => cases h
    next hproposal =>
      split at h
      next => cases h
      next htag =>
        split at h
        next => cases h
        next =>
          split at h
          next => cases h
          next =>
            cases h
            obtain ⟨revision, component⟩ := request
            rw [show revision = _ from htag, show component = _ from hproposal]

namespace Operation

/-- Whether an operation leaves it to the registry to say who the client is. -/
def isAnonymous : Operation → Bool
  | get => false
  | update body => ((body.bind (·.revision)).bind (·.clientId)).getD "" = ""
  | delete _ clientId => clientId.getD "" = ""

/-- The outcome of an operation without the identifier that the registry generated for its client. -/
def unsigned (op : Operation) (outcome : Outcome) : Outcome :=
  if op.isAnonymous then
    outcome.map fun v => { v with revision := { v.revision with clientId := "" } }
  else outcome

/-- The task of an operation is about its inlet, and an order names its client if the operation
does. -/
theorem of_toTask {kind caller id : String} {op : Operation} {task : Task}
    (h : op.toTask kind caller id = .ok task) :
    (op = .get ∧ task = .view caller id) ∨ ∃ o, task = .order o ∧ o.id = id ∧ o.Sensible ∧
      op.isAnonymous = decide (o.revision.clientId = "") := by
  cases op with
  | get => exact .inl ⟨rfl, (Except.ok.inj h).symm⟩
  | delete version clientId =>
    obtain rfl := Except.ok.inj h
    exact .inr ⟨_, rfl, rfl, trivial, rfl⟩
  | update body =>
    have hsensible := fun o (ho : task = .order o) => Order.sensible_of_toTask (ho ▸ h)
    simp only [toTask] at h
    cases hc : checkUpdate id body with
    | error fault =>
      rw [hc] at h
      cases h
    | ok parts =>
      obtain ⟨tag, proposal⟩ := parts
      rw [hc] at h
      obtain rfl := Except.ok.inj h
      refine .inr ⟨_, rfl, rfl, hsensible _ rfl, ?_⟩
      rw [body_of_checkUpdate hc]
      rfl

end Operation

namespace Service

variable {s : Service} {o : Order} {now n m : Nat} {caller id i j p q : String} {op a b : Operation}
  {u : Upshot}

/-- What holds of a service at any time. -/
structure Sound (s : Service) : Prop where
  locks : s.locks.Sound
  /-- An order waits under a claim on the lock of its inlet, which does not hold it yet. -/
  seated : ∀ w ∈ s.waiting, ∃ c ∈ s.locks.claims,
    c.ticket = w.1 ∧ c.id = w.2.id ∧ c.stage.isSuspended = true
  /-- It was looked at before it was taken. -/
  sensible : ∀ w ∈ s.waiting, w.2.Sensible

/-- What comes of an operation. -/
def upshot (s : Service) (caller id : String) (op : Operation) : Upshot :=
  match op.toTask s.kind caller id with
  | .error f => ⟨fun _ => .error f, .keep, [], 0, false⟩
  | .ok (.view caller id) => viewed s.policy caller id s.ledger.store
  | .ok (.order o) =>
    if s.locks.isOpen id then o.upshot s.kind s.policy s.ledger.store
    else ⟨fun _ => .error (LockTable.busy id s.patience), .keep, [], 0, true⟩

/-- The service after what comes of an operation on an inlet. -/
def after (s : Service) (now : Nat) (id : String) (u : Upshot) : Service :=
  { s with
    ledger := u.on id s.ledger
    locks := if u.visits then s.locks.visit now id s.patience else s.locks }

namespace Sound

/-- Orders wait under tickets that have been given out. -/
theorem given (h : s.Sound) {w : Nat × Order} (hw : w ∈ s.waiting) : w.1 < s.locks.fresh := by
  obtain ⟨c, hc, hcw, -⟩ := h.seated w hw
  exact hcw ▸ h.locks.given c hc

/-- Nobody waits under a new ticket. -/
theorem waiting_of_new (h : s.Sound) {k : Nat} (hk : s.locks.fresh ≤ k) :
    s.waiting.filter (·.1 ≠ k) = s.waiting := by
  rw [List.filter_eq_self]
  intro w hw
  exact decide_eq_true (Nat.ne_of_lt (Nat.lt_of_lt_of_le (h.given hw) hk))

/-- A service whose orders waited before is sound if their claims are still there. -/
theorem of_keeps {u : Service} {k : Nat} (h : s.Sound) (hu : u.locks.Sound)
    (hkeeps : s.locks.Keeps k u.locks) (hwaiting : ∀ w ∈ u.waiting, w ∈ s.waiting ∧ w.1 ≠ k) :
    u.Sound := by
  refine ⟨hu, fun w hw => ?_, fun w hw => h.sensible w (hwaiting w hw).1⟩
  obtain ⟨hold, hne⟩ := hwaiting w hw
  obtain ⟨c, hc, hcw, hid, hsuspended⟩ := h.seated w hold
  obtain ⟨d, hd, hdc, hdid, hstage⟩ := hkeeps c hc (hcw.trans_ne hne) hsuspended
  exact ⟨d, hd, hdc.trans hcw, hdid.trans hid, hstage⟩

end Sound

/-- An order whose lock is to be had is carried out on a visit to the lock. -/
theorem submit_of_open (h : s.Sound) (hopen : s.locks.isOpen o.id = true) :
    s.submit now o = (.ok (s.carry o).1,
      { (s.carry o).2 with locks := s.locks.visit now o.id s.patience }) := by
  have hholds := (LockTable.holds_acquire h.locks now o.id s.patience).trans hopen
  have hwaiting := h.waiting_of_new (LockTable.fresh_le_arrive s.locks o.id s.patience)
  have hticket : (s.locks.acquire now o.id s.patience).1 =
      (s.locks.arrive o.id s.patience).1 := rfl
  rw [← hticket] at hwaiting
  rw [submit_eq]
  simp only [hholds, ↓reduceIte, finish_eq, hwaiting, LockTable.visit]
  rfl

/-- Any other order waits. -/
theorem submit_of_shut (h : s.Sound) (hshut : s.locks.isOpen o.id = false) :
    s.submit now o = (.error (s.locks.acquire now o.id s.patience).1,
      { s with
        locks := (s.locks.acquire now o.id s.patience).2
        waiting := s.waiting ++ [((s.locks.acquire now o.id s.patience).1, o)] }) := by
  have hholds := (LockTable.holds_acquire h.locks now o.id s.patience).trans hshut
  rw [submit_eq]
  simp only [hholds, Bool.false_eq_true, ↓reduceIte]

/-- While nobody else acts, an order whose lock is not to be had waits in vain. -/
theorem submitAlone_of_shut (h : s.Sound) (hshut : s.locks.isOpen o.id = false) :
    s.submitAlone now o = (.error (LockTable.busy o.id s.patience),
      { s with locks := s.locks.visit now o.id s.patience }) := by
  have hholds := (LockTable.holds_acquire h.locks now o.id s.patience).trans hshut
  have hwaiting := h.waiting_of_new (LockTable.fresh_le_arrive s.locks o.id s.patience)
  have hticket : (s.locks.acquire now o.id s.patience).1 =
      (s.locks.arrive o.id s.patience).1 := rfl
  rw [← hticket] at hwaiting
  have hnone : s.waiting.lookup (s.locks.acquire now o.id s.patience).1 = none := by
    rw [← hwaiting]
    exact lookup_filter_self
  simp only [submitAlone, submit_of_shut h hshut, expire, List.lookup_append, hnone,
    List.lookup_cons_self, Option.none_or, List.filter_append, hwaiting, LockTable.visit, hholds,
    Bool.false_eq_true, ↓reduceIte]
  simp

/-- Nothing but a failure comes of an operation that fails before it is taken. -/
theorem after_keep (s : Service) (now : Nat) (id : String) (outcome : Nat → Outcome) (visits : Bool) :
    s.after now id ⟨outcome, .keep, [], 0, visits⟩ =
      { s with locks := if visits then s.locks.visit now id s.patience else s.locks } := by
  simp only [after, Upshot.on, Store.amend, List.append_nil, Nat.add_zero]

/-- **A service that nobody else turns to answers as the upshot says.** -/
theorem answer_eq (h : s.Sound) (now : Nat) (caller id : String) (op : Operation) :
    s.answer now caller id op =
      ((s.upshot caller id op).outcome s.ledger.fresh, s.after now id (s.upshot caller id op)) := by
  unfold answer upshot
  cases htask : op.toTask s.kind caller id with
  | error f =>
    simp only [after_keep]
    rfl
  | ok task =>
    rcases Operation.of_toTask htask with ⟨-, rfl⟩ | ⟨o, rfl, rfl, -, -⟩
    · have hvisits : (viewed s.policy caller id s.ledger.store).visits = false := by
        unfold viewed
        split <;> rfl
      simp only [perform, get, Ledger.get_eq, after, hvisits, Bool.false_eq_true, ↓reduceIte]
    · cases hopen : s.locks.isOpen o.id with
      | true =>
        have hvisits : (o.upshot s.kind s.policy s.ledger.store).visits = true := by
          unfold Order.upshot
          split <;> rfl
        simp only [perform, submitAlone, submit_of_open h hopen, carry, Order.carryOut_eq, after,
          hvisits, ↓reduceIte]
      | false =>
        simp only [perform, submitAlone_of_shut h hopen, Bool.false_eq_true, ↓reduceIte, after_keep]

/-! ## What an upshot hangs on -/

/-- **What comes of an operation does not hang on what has come of another on another inlet.** -/
theorem upshot_after (h : s.Sound) (hne : i ≠ j) :
    (s.after now j u).upshot caller i op = s.upshot caller i op := by
  have hfind : (s.after now j u).ledger.store.find? i = s.ledger.store.find? i :=
    Store.find?_amend_ne hne
  have hopen : (s.after now j u).locks.isOpen i = s.locks.isOpen i := by
    unfold after
    cases u.visits with
    | true => exact LockTable.isOpen_visit h.locks hne.symm
    | false => rfl
  have hkind : (s.after now j u).kind = s.kind := rfl
  unfold upshot
  rw [hkind]
  cases htask : op.toTask s.kind caller i with
  | error f => rfl
  | ok task =>
    rcases Operation.of_toTask htask with ⟨-, rfl⟩ | ⟨o, rfl, rfl, ho, -⟩
    · exact viewed_congr hfind
    · simp only [hopen]
      rw [Order.upshot_congr ho hfind]
      rfl

/-- The number of the next identifier is told only to a client that did not say who it is. -/
theorem unsigned_upshot : op.unsigned ((s.upshot caller id op).outcome n) =
    op.unsigned ((s.upshot caller id op).outcome m) := by
  unfold upshot
  cases htask : op.toTask s.kind caller id with
  | error f => rfl
  | ok task =>
    rcases Operation.of_toTask htask with ⟨-, rfl⟩ | ⟨o, rfl, rfl, -, hanonymous⟩
    · simp only [viewed]
      split <;> rfl
    · simp only
      split
      · simp only [Order.upshot]
        cases o.judge s.policy s.ledger.store with
        | error f => rfl
        | ok e =>
          simp only [Operation.unsigned, hanonymous, decide_eq_true_eq]
          split
          next => exact congrArg Except.ok Order.result_unsigned
          next hnamed => exact congrArg Except.ok (Order.result_of_named hnamed)
      · rfl

/-- An entry is amended only where there is one. -/
theorem present_of_upshot {e : Stored} (hput : (s.upshot caller id op).amendment = .put e) :
    s.ledger.store.find? id ≠ none := by
  unfold upshot at hput
  cases htask : op.toTask s.kind caller id with
  | error f =>
    rw [htask] at hput
    cases hput
  | ok task =>
    rw [htask] at hput
    rcases Operation.of_toTask htask with ⟨-, rfl⟩ | ⟨o, rfl, rfl, -, -⟩
    · simp only [viewed] at hput
      split at hput <;> cases hput
    · simp only at hput
      split at hput
      · simp only [Order.upshot] at hput
        cases hjudge : o.judge s.policy s.ledger.store with
        | error f =>
          rw [hjudge] at hput
          cases hput
        | ok g =>
          rw [(Order.find?_of_judge hjudge).1]
          exact Option.some_ne_none g
      · cases hput

/-! ## Two answers -/

/-- That two services have come to the same, if not in the same order. -/
structure Alike (s s' : Service) : Prop where
  kind : s.kind = s'.kind
  policy : s.policy = s'.policy
  patience : s.patience = s'.patience
  store : s.ledger.store = s'.ledger.store
  trail : s.ledger.trail.Perm s'.ledger.trail
  fresh : s.ledger.fresh = s'.ledger.fresh
  locks : s.locks.Same s'.locks
  waiting : s.waiting = s'.waiting

/-- Nobody who waits is passed over by what comes of an operation. -/
theorem Sound.after (h : s.Sound) (now : Nat) (id : String) (u : Upshot) :
    (s.after now id u).Sound := by
  unfold Service.after
  cases u.visits with
  | false => exact ⟨h.locks, h.seated, h.sensible⟩
  | true =>
    refine h.of_keeps (h.locks.visit now id s.patience) (LockTable.keeps_visit h.locks) ?_
    intro w hw
    have hnew : s.locks.fresh ≤ (s.locks.acquire now id s.patience).1 :=
      LockTable.fresh_le_arrive s.locks id s.patience
    exact ⟨hw, Nat.ne_of_lt (Nat.lt_of_lt_of_le (h.given hw) hnew)⟩

/-- What comes of two operations on two inlets may come in either order. -/
theorem after_comm {v : Upshot} {n' m' : Nat} (h : s.Sound) (hne : i ≠ j)
    (hi : ∀ e, u.amendment = .put e → s.ledger.store.find? i ≠ none) :
    ((s.after n i u).after m j v).Alike ((s.after n' j v).after m' i u) := by
  refine ⟨rfl, rfl, rfl, Store.amend_comm hne hi, ?_, ?_, ?_, rfl⟩
  · show ((s.ledger.trail ++ u.entries) ++ v.entries).Perm ((s.ledger.trail ++ v.entries) ++ u.entries)
    rw [List.append_assoc, List.append_assoc]
    exact List.perm_append_comm.append_left _
  · exact Nat.add_right_comm _ _ _
  · unfold after
    cases u.visits with
    | true =>
      cases v.visits with
      | true =>
        simp only [↓reduceIte]
        exact LockTable.visit_comm h.locks hne
      | false =>
        show (s.locks.visit n i s.patience).Same (s.locks.visit m' i s.patience)
        rw [LockTable.visit_same h.locks]
        exact .refl _
    | false =>
      cases v.visits with
      | true =>
        show (s.locks.visit m j s.patience).Same (s.locks.visit n' j s.patience)
        rw [LockTable.visit_same h.locks]
        exact .refl _
      | false => exact .refl _

/-- **Two operations on two inlets may be answered in either order.** -/
theorem answer_comm (h : s.Sound) (hne : i ≠ j) (n m n' m' : Nat) (p q : String) (a b : Operation) :
    a.unsigned (s.answer n p i a).1 = a.unsigned ((s.answer n' q j b).2.answer m' p i a).1 ∧
      b.unsigned ((s.answer n p i a).2.answer m q j b).1 = b.unsigned (s.answer n' q j b).1 ∧
      ((s.answer n p i a).2.answer m q j b).2.Alike ((s.answer n' q j b).2.answer m' p i a).2 := by
  have hi := h.after n i (s.upshot p i a)
  have hj := h.after n' j (s.upshot q j b)
  rw [answer_eq h, answer_eq h]
  simp only [answer_eq hi, answer_eq hj, upshot_after h hne, upshot_after h hne.symm]
  exact ⟨unsigned_upshot, unsigned_upshot, after_comm h hne fun e he => present_of_upshot he⟩

end Service

end InletRegistry.Registry
