import InletRegistry.Proofs.Registry.Orderly

/-!
# The history of a node

The changes that take effect at a node, in the order in which they do. The history is read off a
course of events: a change takes effect when its order is executed with a result, and at no other
moment does the store change or does an order come to be carried out.
-/

namespace InletRegistry.Registry

open InletRegistry.Access InletRegistry.Text InletRegistry.Write

/-- A change that took effect. -/
structure Commit where
  /-- The job whose order it was. -/
  job : Nat
  /-- The order. -/
  order : Order
  /-- What came of it. -/
  result : Versioned Inlet
  /-- The store just before. -/
  before : Store
  /-- The store just after. -/
  after : Store
  deriving DecidableEq

namespace Commit

/-- The whole order, carried out at once on the store before, has this result and leaves the store
after. -/
def Lawful (policy : Policy) (c : Commit) : Prop :=
  ∃ l l' : Ledger, l.store = c.before ∧
    (c.order.steps policy).run c.order.revision l = (.ok c.result, l') ∧ l'.store = c.after

/-- Whether the change is an update of an inlet. -/
def isUpdateOf (id : String) (c : Commit) : Bool :=
  c.order.id = id && match c.order.change with
    | .update _ => true
    | .delete => false

end Commit

/-- Each change starts from the store that the one before it left. -/
def Chain : Store → List Commit → Store → Prop
  | s, [], s' => s' = s
  | s, c :: cs, s' => c.before = s ∧ Chain c.after cs s'

theorem Chain.concat {s s' : Store} {cs : List Commit} {c : Commit} (h : Chain s cs s')
    (hc : c.before = s') : Chain s (cs ++ [c]) c.after := by
  induction cs generalizing s with
  | nil => exact ⟨hc.trans h, rfl⟩
  | cons d cs ih => exact ⟨h.1, ih h.2⟩

/-- The store that a chain leads to is the first one or one that a change left. -/
theorem Chain.last_mem {s s' : Store} {cs : List Commit} (h : Chain s cs s') :
    s' ∈ s :: cs.map (·.after) := by
  induction cs generalizing s with
  | nil =>
    rw [h]
    exact List.mem_cons_self
  | cons c cs ih => exact List.mem_cons_of_mem s (ih h.2)

/-- The order with its result, if the job has carried it out. -/
def Job.carriedOut? : Job → Option (Order × Versioned Inlet)
  | .working o _ (.ended (.ok v)) => some (o, v)
  | .recording o v => some (o, v)
  | .answered o (.ok v) => some (o, v)
  | _ => none

namespace Traffic

variable {t u : Traffic} {e : Event} {events : List Event} {n : Nat} {c : Commit}
  {job job' : Job} {locks : LockTable} {ledger : Ledger}

/-- What the job of a number has carried out. -/
def carriedOut? (t : Traffic) (n : Nat) : Option (Order × Versioned Inlet) :=
  t.jobs[n]?.bind Job.carriedOut?

/-- The change that takes effect by an event. -/
def commit? (t : Traffic) : Event → Option Commit
  | .act n .go =>
    match t.jobs[n]? with
    | some (.working o _ (.due .executing)) =>
      match o.execute (Uuid.ofNat t.ledger.fresh) t.store with
      | (.ok result, store) => some ⟨n, o, result, t.store, store⟩
      | (.error _, _) => none
    | _ => none
  | _ => none

/-- The changes that take effect in a course of events, in order. -/
def commits (t : Traffic) : List Event → List Commit
  | [] => []
  | e :: es => (t.commit? e).toList ++
    match t.next? e with
    | some u => u.commits es
    | none => []

/-- A history that goes on with one more event. -/
theorem commits_concat (h : t.run? events = some u) :
    t.commits (events ++ [e]) = t.commits events ++ (u.commit? e).toList := by
  induction events generalizing t with
  | nil =>
    cases h
    simp only [List.nil_append, commits]
    cases u.next? e <;> simp only [List.append_nil]
  | cons e' events ih =>
    obtain ⟨v, hv, hrest⟩ := Option.bind_eq_some_iff.mp h
    simp only [List.cons_append, commits, hv]
    rw [ih hrest, List.append_assoc]

/-! ## One event -/

/-- A request that has just come has not been answered. -/
theorem shown_ne_receive (t : Traffic) {caller id caller' id' : String} {op : Operation}
    {outcome : Outcome} : .shown caller id outcome ≠ t.receive caller' id' op := by
  unfold receive
  cases op.toTask t.kind caller' id' with
  | error f => exact nofun
  | ok task =>
    simp only
    split
    · exact nofun
    · cases task <;> exact nofun

/-- A turn that answers a read with an inlet gets it from the store. -/
theorem Turn.get_of_shown {caller id : String} {v : Versioned Inlet}
    (h : t.Turn job job' locks ledger) (hshown : job' = .shown caller id (.ok v)) :
    t.store.get id = .ok v := by
  cases h with
  | @look caller' id' cleared _ _ hlook =>
    rw [hshown] at hlook
    unfold Traffic.look at hlook
    split at hlook
    next =>
      obtain ⟨-, rfl, hget⟩ := Job.shown.inj (Prod.mk.inj hlook).1
      exact hget
    next => split at hlook <;> cases hlook
  | giveUp _ _ hend => rcases hend with rfl | rfl <;> cases hshown
  | @leave _ _ outcome _ _ => cases outcome <;> cases hshown
  | claim | enter | step | record => cases hshown

/-- A turn carries an order out when it is executed with a result, and otherwise leaves what the job
has carried out. -/
theorem Turn.carriedOut?_cases (h : t.Turn job job' locks ledger) :
    (job'.carriedOut? = job.carriedOut? ∧ ledger.store = t.store ∧
      ∀ o k v s, job = .working o k (.due .executing) →
        o.execute (Uuid.ofNat t.ledger.fresh) t.store ≠ (.ok v, s)) ∨
    ∃ o k v, job = .working o k (.due .executing) ∧ job' = .working o k (.ended (.ok v)) ∧
      o.execute (Uuid.ofNat t.ledger.fresh) t.store = (.ok v, ledger.store) := by
  cases h with
  | @look caller id cleared _ _ hlook =>
    refine Or.inl ⟨?_, ?_, fun _ _ _ _ hjob => nomatch hjob⟩
    · rcases t.look_cases caller id cleared with ⟨b, hjob⟩ | ⟨outcome, hjob⟩ <;>
        rw [hlook] at hjob <;> cases hjob <;> rfl
    · rw [← t.look_store caller id cleared, hlook]
  | claim | enter | record => exact Or.inl ⟨rfl, rfl, fun _ _ _ _ hjob => nomatch hjob⟩
  | giveUp _ _ hend =>
    rcases hend with rfl | rfl <;> exact Or.inl ⟨rfl, rfl, fun _ _ _ _ hjob => nomatch hjob⟩
  | @leave _ _ outcome _ _ =>
    cases outcome <;> exact Or.inl ⟨rfl, rfl, fun _ _ _ _ hjob => nomatch hjob⟩
  | @step o k phase progress _ hstep =>
    cases progress with
    | due next =>
      refine Or.inl ⟨rfl, congrArg Ledger.store (Order.advance_due hstep), ?_⟩
      rintro _ _ _ _ hjob -
      cases hjob
      cases hstep
    | ended outcome =>
      cases outcome with
      | error f =>
        refine Or.inl ⟨rfl, Order.advance_failed hstep, ?_⟩
        intro _ _ v s hjob hexecute
        cases hjob
        have hover := (Prod.mk.inj hstep).1
        simp only [Order.steps, store] at hover hexecute
        rw [hexecute] at hover
        cases hover
      | ok v =>
        obtain ⟨rfl, hexecute⟩ := Order.advance_done hstep
        exact Or.inr ⟨o, k, v, rfl, rfl, hexecute⟩

theorem carriedOut?_receive (t : Traffic) (caller id : String) (op : Operation) (n : Nat) :
    carriedOut? { t with jobs := t.jobs ++ [t.receive caller id op] } n = t.carriedOut? n := by
  have hnew : (t.receive caller id op).carriedOut? = none := by
    unfold receive
    cases op.toTask t.kind caller id with
    | error f => rfl
    | ok task =>
      simp only
      split
      · rfl
      · cases task <;> rfl
  unfold carriedOut?
  rw [List.getElem?_append]
  split
  next => rfl
  next hlast =>
    rw [List.getElem?_eq_none (Nat.not_lt.mp hlast), Option.bind_none]
    cases h : [t.receive caller id op][n - t.jobs.length]? with
    | none => rfl
    | some job =>
      rw [List.mem_singleton.mp (List.mem_of_getElem? h)]
      exact hnew

/-- An event makes one change take effect, and the job of that has carried its order out from then on;
or none, and then it changes neither the store nor what any job has carried out. -/
theorem commit?_cases (he : t.next? e = some u) :
    (t.commit? e = none ∧ u.store = t.store ∧ ∀ n, u.carriedOut? n = t.carriedOut? n) ∨
    ∃ c k, t.commit? e = some c ∧ t.jobs[c.job]? = some (.working c.order k (.due .executing)) ∧
      c.order.execute (Uuid.ofNat t.ledger.fresh) t.store = (.ok c.result, c.after) ∧
      c.before = t.store ∧ u.store = c.after ∧ t.carriedOut? c.job = none ∧
      u.carriedOut? c.job = some (c.order, c.result) ∧
      ∀ n, n ≠ c.job → u.carriedOut? n = t.carriedOut? n := by
  rcases next?_cases he with ⟨caller, id, op, rfl, rfl⟩ | ⟨n, a, job, job', locks, ledger, rfl, hn,
    hturn, rfl⟩ | ⟨l, locks, rfl, -, -, rfl⟩ | ⟨call, rfl, rfl⟩
  · refine Or.inl ⟨rfl, rfl, ?_⟩
    intro n
    exact t.carriedOut?_receive caller id op n
  · have hother : ∀ m, m ≠ n → (t.jobs.set n job')[m]? = t.jobs[m]? := fun m hm =>
      List.getElem?_set_ne (Ne.symm hm)
    have hself : (t.jobs.set n job')[n]? = some job' :=
      List.getElem?_set_self (List.getElem?_eq_some_iff.mp hn).1
    rcases hturn.carriedOut?_cases with ⟨hsame, hstore, hno⟩ | ⟨o, k, v, rfl, rfl, hexecute⟩
    · refine Or.inl ⟨?_, hstore, ?_⟩
      · unfold commit?
        split
        next heq =>
          cases heq
          split
          next o' k' hdue =>
            obtain rfl := Option.some.inj (hn.symm.trans hdue)
            split
            next hexecute => exact absurd hexecute (hno _ _ _ _ rfl)
            next => rfl
          next => rfl
        next => rfl
      · intro m
        by_cases hm : m = n
        · rw [hm]
          simp only [carriedOut?, hself, hn, Option.bind_some]
          exact hsame
        · simp only [carriedOut?, hother m hm]
    · have hgo : a = .go := by
        cases a with
        | go => rfl
        | _ =>
          simp only [next?, hn, Option.bind_some] at he
          cases he
      refine Or.inr ⟨⟨n, o, v, t.store, ledger.store⟩, k, ?_, hn, hexecute, rfl, rfl, ?_, ?_, ?_⟩
      · simp only [commit?, hgo, hn, hexecute]
      · simp only [carriedOut?, hn, Option.bind_some]
        rfl
      · simp only [carriedOut?, hself, Option.bind_some]
        rfl
      · intro m hm
        simp only [carriedOut?, hother m hm]
  · exact Or.inl ⟨rfl, rfl, fun _ => rfl⟩
  · exact Or.inl ⟨rfl, rfl, fun _ => rfl⟩

/-- A read that is answered with an inlet shows what is stored at this moment. -/
theorem shown_next {caller id : String} {v : Versioned Inlet} (he : t.next? e = some u)
    (h : u.jobs[n]? = some (.shown caller id (.ok v))) :
    t.jobs[n]? = some (.shown caller id (.ok v)) ∨ t.store.get id = .ok v := by
  rcases next?_cases he with ⟨caller', id', op, -, rfl⟩ | ⟨m, a, job, job', locks, ledger, -, hm,
    hturn, rfl⟩ | ⟨l, locks, -, -, -, rfl⟩ | ⟨call, -, rfl⟩
  · rw [List.getElem?_append] at h
    split at h
    next => exact Or.inl h
    next =>
      exact absurd (List.mem_singleton.mp (List.mem_of_getElem? h)) t.shown_ne_receive
  · by_cases hn : n = m
    · have hself : (t.jobs.set m job')[m]? = some job' :=
        List.getElem?_set_self (List.getElem?_eq_some_iff.mp hm).1
      have hshown : job' = .shown caller id (.ok v) :=
        Option.some.inj (hself.symm.trans (hn ▸ h))
      exact Or.inr (hturn.get_of_shown hshown)
    · exact Or.inl (by rwa [List.getElem?_set_ne (Ne.symm hn)] at h)
  · exact Or.inl h
  · exact Or.inl h

/-! ## Every course -/

/-- The settings of a node never change. -/
theorem next?_settings (he : t.next? e = some u) : u.policy = t.policy ∧ u.patience = t.patience := by
  rcases next?_cases he with ⟨_, _, _, -, rfl⟩ | ⟨_, _, _, _, _, _, -, -, -, rfl⟩ |
    ⟨_, _, -, -, -, rfl⟩ | ⟨_, -, rfl⟩ <;> exact ⟨rfl, rfl⟩

theorem next?_policy (he : t.next? e = some u) : u.policy = t.policy := (next?_settings he).1

theorem next?_patience (he : t.next? e = some u) : u.patience = t.patience := (next?_settings he).2

/-- A change that takes effect would have done so as a whole at this moment. -/
theorem Orderly.lawful (h : t.Orderly) {k : Nat}
    (hn : t.jobs[c.job]? = some (.working c.order k (.due .executing)))
    (hexecute : c.order.execute (Uuid.ofNat t.ledger.fresh) t.store = (.ok c.result, c.after))
    (hbefore : c.before = t.store) : c.Lawful t.policy := by
  have hrun := Order.run_of_passed (h.checked c.job _ hn)
  simp only [store] at hexecute
  rw [hexecute] at hrun
  exact ⟨t.ledger, _, hbefore.symm, hrun, rfl⟩

theorem run?_policy (h : t.run? events = some u) : u.policy = t.policy :=
  course?_invariant (P := fun u => u.policy = t.policy) rfl
    (fun _ _ _ hu he => (next?_policy he).trans hu) h

/-- The changes of a course lead from its first store to its last. -/
theorem Orderly.traced (h : t.Orderly) (hrun : t.run? events = some u) :
    Chain t.store (t.commits events) u.store ∧ ∀ c ∈ t.commits events, c.Lawful t.policy := by
  refine (course?_induction (P := fun es u => u.Orderly ∧ u.policy = t.policy ∧
    Chain t.store (t.commits es) u.store ∧ ∀ c ∈ t.commits es, c.Lawful t.policy) ?_ ?_ hrun).2.2
  · exact ⟨h, rfl, rfl, fun c hc => absurd hc List.not_mem_nil⟩
  · rintro es u e v hes ⟨horderly, hpolicy, hchain, hlawful⟩ he
    refine ⟨horderly.next he, (next?_policy he).trans hpolicy, ?_⟩
    rw [commits_concat hes]
    rcases commit?_cases he with ⟨hnone, hstore, -⟩ | ⟨c, k, hcommit, hn, hexecute, hbefore, hafter, -⟩
    · rw [hnone, Option.toList_none, List.append_nil, hstore]
      exact ⟨hchain, hlawful⟩
    · rw [hcommit, Option.toList_some, hafter]
      refine ⟨hchain.concat hbefore, ?_⟩
      intro d hd
      rcases List.mem_append.mp hd with hold | hlast
      · exact hlawful d hold
      · rw [List.mem_singleton.mp hlast, ← hpolicy]
        exact horderly.lawful hn hexecute hbefore

/-- What the history of a course says of the node at its end. -/
structure Recorded (t u : Traffic) (cs : List Commit) : Prop where
  /-- The changes lead from the first store to the last. -/
  chain : Chain t.store cs u.store
  /-- Each of them might have taken place as a whole where it stands. -/
  lawful : ∀ c ∈ cs, c.Lawful u.policy
  /-- The jobs that have carried an order out are those of the changes. -/
  carriedOut : ∀ n o v, u.carriedOut? n = some (o, v) ↔
    ∃ c ∈ cs, c.job = n ∧ c.order = o ∧ c.result = v
  /-- No job has two changes. -/
  once : (cs.map (·.job)).Nodup
  /-- A read that was answered with an inlet shows it as it was before or after some change. -/
  shown : ∀ (n : Nat) (caller id : String) (v : Versioned Inlet),
    u.jobs[n]? = some (.shown caller id (.ok v)) →
      ∃ s ∈ t.store :: cs.map (·.after), s.get id = .ok v

/-- A change that takes effect goes down in the history. -/
theorem Recorded.concat {v : Traffic} {cs : List Commit} (h : Recorded t u cs)
    (hchain : Chain t.store (cs ++ [c]) v.store) (hlawful : ∀ d ∈ cs ++ [c], d.Lawful v.policy)
    (hnew : u.carriedOut? c.job = none)
    (hself : v.carriedOut? c.job = some (c.order, c.result))
    (hother : ∀ n, n ≠ c.job → v.carriedOut? n = u.carriedOut? n) (he : u.next? e = some v) :
    Recorded t v (cs ++ [c]) := by
  have hfresh : ∀ d ∈ cs, d.job ≠ c.job := by
    intro d hd heq
    have hsome := (h.carriedOut d.job d.order d.result).mpr ⟨d, hd, rfl, rfl, rfl⟩
    rw [heq, hnew] at hsome
    cases hsome
  refine ⟨hchain, hlawful, ?_, ?_, ?_⟩
  · intro n o r
    by_cases hn : n = c.job
    · rw [hn, hself]
      constructor
      · intro heq
        cases heq
        exact ⟨c, List.mem_append_right _ List.mem_cons_self, rfl, rfl, rfl⟩
      · rintro ⟨d, hd, hjob, rfl, rfl⟩
        rcases List.mem_append.mp hd with hold | hlast
        · exact absurd hjob (hfresh d hold)
        · rw [List.mem_singleton.mp hlast]
    · rw [hother n hn, h.carriedOut]
      constructor
      · rintro ⟨d, hd, hrest⟩
        exact ⟨d, List.mem_append_left _ hd, hrest⟩
      · rintro ⟨d, hd, hjob, hrest⟩
        rcases List.mem_append.mp hd with hold | hlast
        · exact ⟨d, hold, hjob, hrest⟩
        · rw [List.mem_singleton.mp hlast] at hjob
          exact absurd hjob.symm hn
  · rw [List.map_append, List.map_singleton]
    refine List.nodup_append.mpr ⟨h.once, List.nodup_singleton _, ?_⟩
    intro i hi j hj
    obtain ⟨d, hd, rfl⟩ := List.mem_map.mp hi
    rw [List.mem_singleton.mp hj]
    exact hfresh d hd
  · intro n caller id r hn
    rw [List.map_append]
    rcases shown_next he hn with hold | hget
    · obtain ⟨s, hs, hget⟩ := h.shown n caller id r hold
      exact ⟨s, List.mem_append_left _ hs, hget⟩
    · exact ⟨u.store, List.mem_append_left _ h.chain.last_mem, hget⟩

/-- The history of a course that starts from an orderly node without jobs. -/
theorem recorded (h : t.Orderly) (hjobs : t.jobs = []) (hrun : t.run? events = some u) :
    Recorded t u (t.commits events) := by
  have hnone : ∀ n, t.carriedOut? n = none := by
    intro n
    simp only [carriedOut?, hjobs, List.getElem?_nil, Option.bind_none]
  refine course?_induction (P := fun es u => Recorded t u (t.commits es)) ?_ ?_ hrun
  · refine ⟨rfl, fun c hc => absurd hc List.not_mem_nil, ?_, List.nodup_nil, ?_⟩
    · intro n o v
      rw [hnone]
      refine ⟨nofun, ?_⟩
      rintro ⟨c, hc, -⟩
      exact absurd hc List.not_mem_nil
    · intro n caller id v hn
      rw [hjobs, List.getElem?_nil] at hn
      cases hn
  · rintro es u e v hes hrecorded he
    have hgone : t.run? (es ++ [e]) = some v := course?_concat hes he
    obtain ⟨hchain, hlawful⟩ := h.traced hgone
    rw [commits_concat hes] at hchain hlawful ⊢
    rw [← run?_policy hgone] at hlawful
    rcases commit?_cases he with ⟨hnocommit, -, hsame⟩ | ⟨c, k, hcommit, -, -, -, -, hnew, hself,
      hother⟩
    · rw [hnocommit, Option.toList_none, List.append_nil] at hchain hlawful ⊢
      refine ⟨hchain, hlawful, ?_, hrecorded.once, ?_⟩
      · intro n o r
        rw [hsame, hrecorded.carriedOut]
      · intro n caller id r hn
        rcases shown_next he hn with hold | hget
        · exact hrecorded.shown n caller id r hold
        · exact ⟨u.store, hrecorded.chain.last_mem, hget⟩
    · rw [hcommit, Option.toList_some] at hchain hlawful ⊢
      exact hrecorded.concat hchain hlawful hnew hself hother he

end Traffic

end InletRegistry.Registry
