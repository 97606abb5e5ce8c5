import InletRegistry.Proofs.Registry.Acting
import InletRegistry.Proofs.Registry.Life
import InletRegistry.Proofs.Registry.Restating

/-!
# What is sent back changes nothing

A client that was given an inlet, by a read or by an update, may send the text back as it came. If nothing
else has happened to the inlet, the update is carried out and only the version goes up by one; and if
another change has taken effect, the update never is. So whoever reads, edits and sends back overwrites
nothing that it has not seen, and whoever edits nothing changes nothing.
-/

namespace InletRegistry.Registry

open InletRegistry.Access InletRegistry.Cluster InletRegistry.Text InletRegistry.Time
  InletRegistry.Write

/-! ## What the registry answers -/

namespace Service

variable {s : Service} {o : Order} {caller id : String} {op : Operation}

/-- An order whose lock is to be had is carried out, -/
theorem answer_of_open (now : Nat) (hlocks : s.locks.Sound)
    (htask : op.toTask s.kind caller id = .ok (.order o)) (hopen : s.locks.isOpen o.id = true) :
    (s.answer now caller id op).1 = (o.carryOut s.kind s.policy s.ledger).1 ∧
      (s.answer now caller id op).2.ledger = (o.carryOut s.kind s.policy s.ledger).2 := by
  have hholds := (LockTable.holds_acquire hlocks now o.id s.patience).trans hopen
  simp only [answer, htask, perform, submitAlone, submit_eq, hholds, ↓reduceIte]
  exact ⟨rfl, rfl⟩

/-- and any other fails. -/
theorem answer_of_shut (now : Nat) (hlocks : s.locks.Sound)
    (htask : op.toTask s.kind caller id = .ok (.order o)) (hshut : s.locks.isOpen o.id = false) :
    (s.answer now caller id op).1 = .error (LockTable.busy o.id s.patience) := by
  have hholds := (LockTable.holds_acquire hlocks now o.id s.patience).trans hshut
  simp only [answer, htask, perform, submitAlone, submit_eq, hholds, Bool.false_eq_true, ↓reduceIte,
    expire_patience]

end Service

/-! ## What a client is given -/

/-- The inlet that a client is given, as it stood when it was read or as an update left it. -/
def Job.given? : Job → Option (Versioned Inlet)
  | .shown _ _ (.ok v) => some v
  | job => job.carriedOut?.bind fun (o, v) =>
    match o.change with
    | .update _ => some v
    | .delete => none

namespace Job

variable {job : Job} {v : Versioned Inlet} {o : Order} {p : Proposal}

theorem given?_of_carriedOut? (h : job.carriedOut? = some (o, v)) (hp : o.change = .update p) :
    job.given? = some v := by
  unfold given?
  split
  next => cases h
  next => simp only [h, Option.bind_some, hp]

theorem given?_cases (h : job.given? = some v) :
    (∃ caller id, job = .shown caller id (.ok v)) ∨
      ∃ o p, job.carriedOut? = some (o, v) ∧ o.change = .update p := by
  unfold given? at h
  split at h
  next caller id v =>
    obtain rfl := Option.some.inj h
    exact Or.inl ⟨caller, id, rfl⟩
  next =>
    obtain ⟨⟨o, v⟩, hdone, hchange⟩ := Option.bind_eq_some_iff.mp h
    cases hp : o.change with
    | update p =>
      simp only [hp] at hchange
      obtain rfl := Option.some.inj hchange
      exact Or.inr ⟨o, p, hdone, hp⟩
    | delete =>
      simp only [hp] at hchange
      cases hchange

end Job

namespace Traffic

variable {t u w : Traffic} {e : Event} {past events : List Event} {n m : Nat} {job job' : Job}
  {locks : LockTable} {ledger : Ledger} {v : Versioned Inlet} {o : Order} {f : Failure}

/-- The inlet that the client of a job is given. -/
def given? (t : Traffic) (m : Nat) : Option (Versioned Inlet) := t.jobs[m]?.bind Job.given?

/-- A turn by which a client is given an inlet leaves the inlet stored as it was given. -/
theorem Turn.holds (h : t.Turn job job' locks ledger) (hkeyed : t.store.Every fun id i => i.id = id)
    (hnew : job.given? = none) (hgiven : job'.given? = some v) : ∃ n, ledger.store.Holds v n := by
  rcases Job.given?_cases hgiven with ⟨caller, id, rfl⟩ | ⟨o, p, hdone, hp⟩
  · rcases h.carriedOut?_cases with ⟨-, hstore, -⟩ | ⟨_, _, _, -, hjob, -⟩
    · have hget := h.get_of_shown rfl
      unfold Store.get at hget
      split at hget
      next g hlookup =>
        obtain rfl := Except.ok.inj hget
        have hfind := Store.lookup_eq_ok.mp hlookup
        refine ⟨g.version, rfl, ?_⟩
        rw [hstore, hkeyed.of_find? hfind]
        exact hfind
      next => cases hget
    · cases hjob
  · rcases h.carriedOut?_cases with ⟨hsame, -, -⟩ | ⟨o', k, v', rfl, rfl, hexecute⟩
    · rw [Job.given?_of_carriedOut? (hsame.symm.trans hdone) hp] at hnew
      cases hnew
    · cases hdone
      simp only [Order.execute, hp] at hexecute
      obtain ⟨g, hfind, -, rfl, hstore⟩ := Store.update_eq_ok.mp hexecute
      refine ⟨g.version + 1, rfl, ?_⟩
      rw [hstore, Proposal.applyTo_id, hkeyed.of_find? hfind]
      exact Store.lookup_put_self

theorem given?_receive (t : Traffic) (caller id : String) (op : Operation) :
    (t.receive caller id op).given? = none := by
  unfold receive
  cases op.toTask t.kind caller id with
  | error f => rfl
  | ok task =>
    simp only
    split
    · rfl
    · cases task <;> rfl

/-- An event by which a client is given an inlet leaves the inlet stored as it was given. -/
theorem holds_of_given (hkeyed : t.store.Every fun id i => i.id = id) (he : t.next? e = some u)
    (hnew : t.given? m = none) (hgiven : u.given? m = some v) : ∃ n, u.store.Holds v n := by
  rcases next?_cases he with ⟨caller, id, op, -, rfl⟩ | ⟨n, a, job, job', locks, ledger, -, hn,
    hturn, rfl⟩ | ⟨l, locks, -, -, -, rfl⟩ | ⟨call, -, rfl⟩
  · obtain ⟨job, hjob, hv⟩ := Option.bind_eq_some_iff.mp hgiven
    rw [List.getElem?_append] at hjob
    split at hjob
    next =>
      rw [given?, hjob, Option.bind_some, hv] at hnew
      cases hnew
    next =>
      rw [List.mem_singleton.mp (List.mem_of_getElem? hjob), given?_receive] at hv
      cases hv
  · by_cases hm : m = n
    · subst hm
      have hself : (t.jobs.set m job')[m]? = some job' :=
        List.getElem?_set_self (List.getElem?_eq_some_iff.mp hn).1
      simp only [given?, hself, hn, Option.bind_some] at hnew hgiven
      exact hturn.holds hkeyed hnew hgiven
    · simp only [given?, List.getElem?_set_ne (Ne.symm hm)] at hnew hgiven
      rw [hnew] at hgiven
      cases hgiven
  · have hold : t.given? m = some v := hgiven
    rw [hnew] at hold
    cases hold
  · have hold : t.given? m = some v := hgiven
    rw [hnew] at hold
    cases hold

/-! ## What comes of it when it is sent back -/

/-- A turn of a job whose order passes all checks fails only for want of the lock. -/
theorem Turn.busy (h : t.Turn job job' locks ledger) (ho : job'.order? = some o)
    (hp : o.Passed t.policy t.store .executing)
    (hold : ∀ f, job.failure? = some f → f = LockTable.busy o.id t.patience)
    (hf : job'.failure? = some f) : f = LockTable.busy o.id t.patience := by
  cases h with
  | @look caller id cleared _ _ hlook =>
    rcases t.look_cases caller id cleared with ⟨b, hjob⟩ | ⟨outcome, hjob⟩ <;>
      rw [hlook] at hjob <;> cases hjob <;> cases ho
  | claim | enter | record => cases hf
  | giveUp _ _ hend =>
    rcases hend with rfl | rfl
    · cases ho
      exact (Option.some.inj hf).symm
    · cases hf
  | @step o' k phase progress _ hstep =>
    cases ho
    cases progress with
    | due next => cases hf
    | ended outcome =>
      cases outcome with
      | ok v => cases hf
      | error g => exact absurd hstep hp.advance_ne
  | @leave o' k outcome _ _ =>
    cases outcome with
    | ok v => cases hf
    | error g =>
      cases hf
      exact hold _ rfl

/-- Whether a job has failed at most for want of its lock, if it has a certain order. -/
def Unopposed (t : Traffic) (m : Nat) (o : Order) : Prop :=
  ∀ job f, t.jobs[m]? = some job → job.order? = some o → job.failure? = some f →
    f = LockTable.busy o.id t.patience

/-- A request that has just been admitted has not failed. -/
theorem failure?_receive {caller id : String} {op : Operation}
    (h : (t.receive caller id op).order? = some o) : (t.receive caller id op).failure? = none := by
  unfold receive at h ⊢
  cases htask : op.toTask t.kind caller id with
  | error f =>
    rw [htask] at h
    cases h
  | ok task =>
    simp only [htask] at h ⊢
    split at h
    next => cases h
    next hhere =>
      rw [if_neg hhere]
      cases task <;> rfl

/-- While all checks of its order pass, a job fails at most for want of its lock. -/
theorem Unopposed.next (h : t.Unopposed m o) (hp : o.Passed t.policy t.store .executing)
    (he : t.next? e = some u) : u.Unopposed m o := by
  intro job f hjob ho hf
  rw [next?_patience he]
  rcases next?_cases he with ⟨caller, id, op, -, rfl⟩ | ⟨n, a, i, j, locks, ledger, -, hn, hturn,
    rfl⟩ | ⟨l, locks, -, -, -, rfl⟩ | ⟨call, -, rfl⟩
  · rw [List.getElem?_append] at hjob
    split at hjob
    next => exact h job f hjob ho hf
    next =>
      rw [List.mem_singleton.mp (List.mem_of_getElem? hjob)] at ho hf
      rw [failure?_receive ho] at hf
      cases hf
  · by_cases hm : m = n
    · subst hm
      have hself : (t.jobs.set m j)[m]? = some j :=
        List.getElem?_set_self (List.getElem?_eq_some_iff.mp hn).1
      obtain rfl := Option.some.inj (hself.symm.trans hjob)
      exact hturn.busy ho hp (fun g hg => h i g hn (hturn.order ho) hg) hf
    · rw [List.getElem?_set_ne (Ne.symm hm)] at hjob
      exact h job f hjob ho hf
  · exact h job f hjob ho hf
  · exact h job f hjob ho hf

/-- As long as no change is about its inlet, a job whose order passed all checks before it came fails at
most for want of its lock. -/
theorem Orderly.unopposed (h : t.Orderly) (ho : o.Sensible)
    (hp : o.Passed t.policy t.store .executing) (hm : t.jobs.length ≤ m)
    (hrun : t.run? events = some u) (hothers : ∀ c ∈ t.commits events, c.order.id ≠ o.id) :
    u.Unopposed m o := by
  refine course?_induction (P := fun es u => (∀ c ∈ t.commits es, c.order.id ≠ o.id) →
    u.Unopposed m o) ?_ ?_ hrun hothers
  · intro _ job f hjob
    rw [List.getElem?_eq_none hm] at hjob
    cases hjob
  · intro es v e w hes hold he hothers
    rw [commits_concat hes] at hothers
    have hbefore : ∀ c ∈ t.commits es, c.order.id ≠ o.id := fun c hc =>
      hothers c (List.mem_append_left _ hc)
    have hpassed : o.Passed v.policy v.store .executing := by
      rw [run?_policy hes]
      exact hp.congr ho (h.untouched hes hbefore).symm
    exact (hold hbefore).next hpassed he

/-- Every inlet is stored under its own id. -/
theorem keyed_of_run {kind : String} {policy : Policy} {patience : Duration} {membership : Membership}
    {seeds : List (Inlet × Nat)} {fresh : Nat}
    (h : (start kind policy patience membership (.holding seeds) fresh).run? past = some t) :
    t.store.Every fun id i => i.id = id := by
  have hrecorded := recorded Orderly.start rfl h
  have hsensible := fun c hc => hrecorded.sensible (Orderly.start.run h) (c := c) hc
  exact (hrecorded.chain.every hrecorded.lawful hsensible Store.lasting_id
    (.holding fun _ _ => rfl)).2 _ hrecorded.chain.last_mem

/-- What comes of the text of an inlet, given at some version, when it is sent back. -/
structure TakenBack (t : Traffic) (v : Versioned Inlet) (n : Nat) : Prop where
  /-- It is read as the update that proposes for the inlet what it is; -/
  read : ∀ base, UpdateRequest.read? (Entity.ofVersioned base v).toJson.octets = some (.restating v)
  /-- and where it is not sent on, it is admitted as that order. -/
  admitted : ∀ (u : Traffic) (base caller : String), u.membership.mustForward = false →
    u.receive caller v.state.id (.sendBack base v) = .admitted (.restating caller v)
  /-- If no other change of the inlet has taken effect since, whoever may write and finds the lock open
  is answered with the same inlet at the next version, and that is what is stored. -/
  accepted : ∀ (events : List Event) (u : Traffic), t.run? events = some u →
    (∀ c ∈ t.commits events, c.order.id ≠ v.state.id) →
    ∀ (base : String) (now : Nat) (caller : String),
      u.policy.allows caller (Store.resourceName v.state.id) .write = true →
      u.locks.isOpen v.state.id = true →
      ∃ r, (u.service.answer now caller v.state.id (.sendBack base v)).1 = .ok ⟨v.state, r⟩ ∧
        r.version = some (n + 1) ∧
        (u.service.answer now caller v.state.id (.sendBack base v)).2.ledger.store.find? v.state.id =
          some ⟨v.state, n + 1⟩
  /-- Whatever else goes on beside it, the order fails only if it does not get its lock in time. -/
  unopposed : ∀ (events : List Event) (u : Traffic), t.run? events = some u →
    (∀ c ∈ t.commits events, c.order.id ≠ v.state.id) →
    ∀ caller, u.policy.allows caller (Store.resourceName v.state.id) .write = true →
      ∀ m, t.jobs.length ≤ m → u.Unopposed m (.restating caller v)
  /-- Where it takes effect, it is the first change of the inlet since, and changes the version alone. -/
  effect : ∀ (events : List Event) (u : Traffic), t.run? events = some u →
    ∀ cs c ds caller, t.commits events = cs ++ c :: ds → c.order = .restating caller v →
      (∀ d ∈ cs, d.order.id ≠ v.state.id) ∧ c.result.state = v.state ∧
        c.result.revision.version = some (n + 1) ∧
        c.after.find? v.state.id = some ⟨v.state, n + 1⟩
  /-- Once another change of the inlet has taken effect, everybody who sends it back is turned down. -/
  refused : ∀ (events : List Event) (u : Traffic), t.run? events = some u →
    (∃ c ∈ t.commits events, c.order.id = v.state.id) →
    ∀ (base : String) (now : Nat) (caller : String),
      ∃ f, (u.service.answer now caller v.state.id (.sendBack base v)).1 = .error f

section

variable (horderly : t.Orderly) (hholds : t.store.Holds v n) (hn : n < Decimal.word64)
  (hpresentable : v.state.Presentable) (hrun : t.run? events = some u)

include horderly hholds hrun

theorem holds_of_others (hothers : ∀ c ∈ t.commits events, c.order.id ≠ v.state.id) :
    u.store.Holds v n :=
  ⟨hholds.told, (horderly.untouched hrun hothers).trans hholds.stored⟩

theorem effect_of_sendBack {cs ds : List Commit} {c : Commit} {caller : String}
    (hsplit : t.commits events = cs ++ c :: ds) (hc : c.order = .restating caller v) :
    (∀ d ∈ cs, d.order.id ≠ v.state.id) ∧ c.result.state = v.state ∧
      c.result.revision.version = some (n + 1) ∧
      c.after.find? v.state.id = some ⟨v.state, n + 1⟩ := by
  have hid : c.order.id = v.state.id := by
    rw [hc]
    rfl
  have hclaim : c.order.revision.version = some n := by
    rw [hc]
    exact hholds.told
  have hlawful : c.Lawful t.policy := by
    refine (horderly.traced hrun).2 c ?_
    rw [hsplit]
    exact List.mem_append_right cs List.mem_cons_self
  obtain ⟨hothers, hfound⟩ := horderly.first hrun hholds.stored hsplit hid hclaim
  have hchange : c.order.change = .update (.restating v.state) := by
    rw [hc]
    rfl
  obtain ⟨hstate, hversion, hafter⟩ := hlawful.update hchange (hid ▸ hfound)
  rw [hid] at hafter
  exact ⟨hothers, hstate, hversion, hafter⟩

include hn

theorem refused_of_change (hchanged : ∃ c ∈ t.commits events, c.order.id = v.state.id)
    (base : String) (now : Nat) (caller : String) :
    ∃ f, (u.service.answer now caller v.state.id (.sendBack base v)).1 = .error f := by
  obtain ⟨c, hc, hid⟩ := hchanged
  have hlocks : u.service.locks.Sound := (horderly.run hrun).sound
  have htask := Order.toTask_sendBack u.kind base caller hholds.told (Nat.le_of_lt hn)
  cases hopen : u.locks.isOpen v.state.id with
  | false => exact ⟨_, Service.answer_of_shut now hlocks htask hopen⟩
  | true =>
    rw [(Service.answer_of_open now hlocks htask hopen).1, Order.carryOut_eq, Order.upshot]
    cases hjudge : (Order.restating caller v).judge u.service.policy u.service.ledger.store with
    | error f => exact ⟨f, rfl⟩
    | ok g =>
      -- What is judged is what the claim names, but by now the inlet is past that.
      obtain ⟨hfind, hclaim⟩ := Order.find?_of_judge hjudge
      have hraised := horderly.raised hrun hholds.stored hc hid hfind
      have hsame := (Revision.holdsAt_iff_of_version hholds.told _).mp hclaim
      exact absurd hsame (Nat.ne_of_lt hraised)

include hpresentable

theorem accepted_of_others (hothers : ∀ c ∈ t.commits events, c.order.id ≠ v.state.id)
    (base : String) (now : Nat) (caller : String)
    (hallowed : u.policy.allows caller (Store.resourceName v.state.id) .write = true)
    (hopen : u.locks.isOpen v.state.id = true) :
    ∃ r, (u.service.answer now caller v.state.id (.sendBack base v)).1 = .ok ⟨v.state, r⟩ ∧
      r.version = some (n + 1) ∧
      (u.service.answer now caller v.state.id (.sendBack base v)).2.ledger.store.find? v.state.id =
        some ⟨v.state, n + 1⟩ := by
  have hlocks : u.service.locks.Sound := (horderly.run hrun).sound
  have htask := Order.toTask_sendBack u.kind base caller hholds.told (Nat.le_of_lt hn)
  have hstands : u.store.Holds v n := holds_of_others horderly hholds hrun hothers
  have hjudged : (Order.restating caller v).judge u.policy u.store = .ok ⟨v.state, n⟩ :=
    (Order.passed_restating hallowed hpresentable hstands).judged hstands.stored
  obtain ⟨houtcome, hledger⟩ := Service.answer_of_open now hlocks htask hopen
  rw [houtcome, hledger, Order.carryOut_eq, Order.upshot, service_policy, service_ledger]
  rw [show u.ledger.store = u.store from rfl, hjudged]
  exact ⟨_, rfl, rfl, Store.lookup_put_self⟩

end

/-- **To send an inlet back as it was given changes nothing but its version**, whatever its texts are made
of and whatever state it is in; and it never takes effect once another change of the inlet has. -/
theorem sending_back_changes_nothing {kind : String} {policy : Policy} {patience : Duration}
    {membership : Membership} {seeds : List (Inlet × Nat)} {fresh : Nat}
    (hpast : (start kind policy patience membership (.holding seeds) fresh).run? past = some t)
    (he : t.next? e = some u) (hnew : t.given? m = none) (hgiven : u.given? m = some v)
    (hversion : v.revision.version = some n) (hn : n < Decimal.word64)
    (hpresentable : v.state.Presentable) : u.TakenBack v n := by
  have horderly : u.Orderly := (Orderly.start.run hpast).next he
  obtain ⟨k, hholds⟩ := holds_of_given (keyed_of_run hpast) he hnew hgiven
  obtain rfl := Option.some.inj (hversion.symm.trans hholds.told)
  refine ⟨?_, ?_, ?_, ?_, ?_, ?_⟩
  · exact fun base => UpdateRequest.read?_ofVersioned fun k hk =>
      Option.some.inj (hversion.symm.trans hk) ▸ Nat.le_of_lt hn
  · intro w base caller hhere
    have htask := Order.toTask_sendBack w.kind base caller hversion (Nat.le_of_lt hn)
    simp only [receive, htask, hhere, Bool.false_eq_true, ↓reduceIte]
  · exact fun events w hrun hothers base now caller =>
      accepted_of_others horderly hholds hn hpresentable hrun hothers base now caller
  · intro events w hrun hothers caller hallowed l hl
    rw [run?_policy hrun] at hallowed
    exact horderly.unopposed (Order.sensible_restating hversion)
      (Order.passed_restating hallowed hpresentable hholds) hl hrun hothers
  · exact fun events w hrun cs c ds caller hsplit hc =>
      effect_of_sendBack horderly hholds hrun hsplit hc
  · exact fun events w hrun hchanged base now caller =>
      refused_of_change horderly hholds hn hrun hchanged base now caller

/-- An inlet with an id, a name and comments that are not written as they are. -/
def awkward : Inlet :=
  ⟨"in/é \"1\"", " \\ 名", "tab\t, bell\x07, newline\n, 😀", .disabled, 4294967295⟩

/-- A node that has it at the last version that may still go up. -/
def nearTheEnd : Traffic :=
  start "input port" [⟨"*", "*", [.read, .write]⟩] (.ofSeconds 1) ⟨.standalone, none⟩
    (.holding [(awkward, 18446744073709551614)]) 0

/-- What is read there. -/
def readThere : Versioned Inlet := ⟨awkward, ⟨some 18446744073709551614, "", awkward.id⟩⟩

/-- Somebody reads it and sends it back. -/
theorem sending_back_changes_nothing_awkward :
    ∃ t u, nearTheEnd.run? [.request "a" awkward.id .get, .act 0 .go] = some t ∧
      t.next? (.act 0 .go) = some u ∧ t.given? 0 = none ∧ u.given? 0 = some readThere ∧
      (u.service.answer 0 "a" awkward.id (.sendBack "http://h/" readThere)).1.toOption.map
        (fun v => (v.state, v.revision.version)) = some (awkward, some 18446744073709551615) ∧
      u.TakenBack readThere 18446744073709551614 := by
  have hruns : (nearTheEnd.run? [.request "a" awkward.id .get, .act 0 .go]).bind (fun t =>
      (t.next? (.act 0 .go)).map fun u => (t.given? 0, u.given? 0,
        (u.service.answer 0 "a" awkward.id (.sendBack "http://h/" readThere)).1.toOption.map
          fun v => (v.state, v.revision.version))) =
      some (none, some readThere, some (awkward, some 18446744073709551615)) := by
    decide +kernel
  obtain ⟨t, ht, hnext⟩ := Option.bind_eq_some_iff.mp hruns
  obtain ⟨u, hu, htold⟩ := Option.map_eq_some_iff.mp hnext
  obtain ⟨hnew, htold⟩ := Prod.mk.inj htold
  obtain ⟨hgiven, hanswer⟩ := Prod.mk.inj htold
  exact ⟨t, u, ht, hu, hnew, hgiven, hanswer,
    sending_back_changes_nothing ht hu hnew hgiven rfl (by decide) (by decide +kernel)⟩

end Traffic

end InletRegistry.Registry
