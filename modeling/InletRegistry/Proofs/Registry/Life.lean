import InletRegistry.Proofs.Inlet.Rules
import InletRegistry.Proofs.Registry.Lineage
import InletRegistry.Proofs.Registry.Requests

/-!
# The life of an inlet

The rules of an inlet's life are looked at when an order is verified, and the change is made two steps
later, on what the store holds by then. Since nobody else changes the inlet between, every change that
takes effect keeps the rules: it makes of an inlet what that may become, or removes one that rests. So
whatever the seeds of a store have in common and every step of such a life keeps, every inlet has that
is ever stored or given to a caller.
-/

namespace InletRegistry.Registry

open InletRegistry.Access InletRegistry.Cluster InletRegistry.Text InletRegistry.Time
  InletRegistry.Write

/-! ## One change -/

/-- An order that is carried out at once was verified on the store as it stands. -/
theorem Order.verify_of_run {o : Order} {policy : Policy} {l l' : Ledger} {v : Versioned Inlet}
    (h : (o.steps policy).run o.revision l = (.ok v, l')) : o.verify l.store = .ok () := by
  unfold Steps.run at h
  split at h
  next => cases h
  next hauthorized =>
    obtain ⟨-, rfl⟩ := Ledger.authorize_ok hauthorized
    split at h
    next => cases h
    next hverified => exact (Prod.mk.inj hverified).1

namespace Commit

variable {policy : Policy} {c : Commit} {id : String} {P : String → Inlet → Prop}

/-- What a change may do to what is stored for an id. -/
inductive Succession (c : Commit) (id : String) : Option Stored → Option Stored → Prop where
  /-- It is about another inlet. -/
  | other {x : Option Stored} (hid : c.order.id ≠ id) : Succession c id x x
  /-- It updates the inlet to what that may become, and gives what it stores. -/
  | updated {p : Proposal} {e f : Stored} (hid : c.order.id = id)
    (hchange : c.order.change = .update p) (hbecomes : e.inlet.MayBecome f.inlet)
    (hresult : c.result.state = f.inlet) : Succession c id (some e) (some f)
  /-- It removes the inlet, which rests, and gives its last state. -/
  | removed {e : Stored} (hid : c.order.id = id) (hchange : c.order.change = .delete)
    (hrests : e.inlet.state ≠ .running) (hresult : c.result.state = e.inlet) :
    Succession c id (some e) none

theorem Lawful.verified (h : c.Lawful policy) : c.order.verify c.before = .ok () := by
  obtain ⟨l, l', hbefore, hrun, -⟩ := h
  rw [← hbefore]
  exact Order.verify_of_run hrun

/-- A lawful change keeps the rules of every inlet's life. -/
theorem Lawful.succession (h : c.Lawful policy) (ho : c.order.Sensible) (id : String) :
    c.Succession id (c.before.find? id) (c.after.find? id) := by
  by_cases hid : c.order.id = id
  · subst hid
    have hverified := h.verified
    unfold Order.verify at hverified
    unfold Order.Sensible at ho
    cases hchange : c.order.change with
    | update p =>
      rw [hchange] at hverified ho
      obtain ⟨e, he, hrules⟩ := (Store.verifyUpdate_eq_ok ho.1).mp hverified
      obtain ⟨hresult, -, hafter⟩ := h.update hchange he
      rw [he, hafter]
      exact .updated rfl hchange (Store.mayBecome_of_breach? hrules) hresult
    | delete =>
      rw [hchange] at hverified
      obtain ⟨e, he, hrests⟩ := Store.verifyDelete_eq_ok.mp hverified
      obtain ⟨fresh, hexecute⟩ := h.execute
      simp only [Order.execute, hchange] at hexecute
      obtain ⟨f, hf, -, hresult, -⟩ := Store.delete_eq_ok.mp hexecute
      obtain rfl := Option.some.inj (he.symm.trans hf)
      rw [he, h.delete hchange]
      exact .removed rfl hchange hrests (congrArg Versioned.state hresult)
  · rw [h.other (Ne.symm hid)]
    exact .other hid

/-- A running inlet is still there after a lawful change. -/
theorem Succession.outlasts {e : Stored} {x : Option Stored} (h : c.Succession id (some e) x)
    (hruns : e.inlet.state = .running) : ∃ f, x = some f := by
  cases h with
  | other => exact ⟨e, rfl⟩
  | updated => exact ⟨_, rfl⟩
  | removed _ _ hrests => exact absurd hruns hrests

/-- A lawful change keeps what lasts. -/
theorem Lawful.every (h : c.Lawful policy) (ho : c.order.Sensible) (hP : Store.Lasting P)
    (hbefore : c.before.Every P) : c.after.Every P := by
  have hverified := h.verified
  obtain ⟨fresh, hexecute⟩ := h.execute
  unfold Order.verify at hverified
  unfold Order.execute at hexecute
  unfold Order.Sensible at ho
  cases hchange : c.order.change with
  | update p =>
    rw [hchange] at hverified hexecute ho
    exact hbefore.update hP ho.1 hverified hexecute
  | delete =>
    rw [hchange] at hexecute
    exact hbefore.delete hexecute

/-- What a lawful change gives to its caller has whatever lasts. -/
theorem Lawful.given (h : c.Lawful policy) (ho : c.order.Sensible) (hP : Store.Lasting P)
    (hbefore : c.before.Every P) : P c.order.id c.result.state := by
  have hafter := h.every ho hP hbefore
  have hsuccession := h.succession ho c.order.id
  generalize hx : c.before.find? c.order.id = x at hsuccession
  generalize hy : c.after.find? c.order.id = y at hsuccession
  cases hsuccession with
  | other hid => exact absurd rfl hid
  | updated _ _ _ hresult =>
    rw [hresult]
    exact hafter.of_find? hy
  | removed _ _ _ hresult =>
    rw [hresult]
    exact hbefore.of_find? hx

end Commit

/-! ## Every change of a node -/

/-- What lasts and holds of the first store of a chain holds of every store on the way. -/
theorem Chain.every {policy : Policy} {P : String → Inlet → Prop} {s s' : Store} {cs : List Commit}
    (h : Chain s cs s') (hlawful : ∀ c ∈ cs, c.Lawful policy)
    (hsensible : ∀ c ∈ cs, c.order.Sensible) (hP : Store.Lasting P) (hs : s.Every P) :
    (∀ c ∈ cs, c.before.Every P) ∧ ∀ x ∈ s :: cs.map (·.after), x.Every P := by
  induction cs generalizing s with
  | nil =>
    refine ⟨fun c hc => absurd hc List.not_mem_nil, ?_⟩
    intro x hx
    rw [List.mem_singleton.mp hx]
    exact hs
  | cons c cs ih =>
    obtain ⟨hbefore, hrest⟩ := h
    have hc : c.before.Every P := by rwa [hbefore]
    have hafter :=
      (hlawful c List.mem_cons_self).every (hsensible c List.mem_cons_self) hP hc
    obtain ⟨hbefores, hafters⟩ := ih hrest (fun d hd => hlawful d (List.mem_cons_of_mem c hd))
      (fun d hd => hsensible d (List.mem_cons_of_mem c hd)) hafter
    constructor
    · intro d hd
      rcases List.mem_cons.mp hd with rfl | hd
      · exact hc
      · exact hbefores d hd
    · intro x hx
      rcases List.mem_cons.mp hx with rfl | hx
      · exact hs
      · exact hafters x hx

namespace Traffic

variable {t u : Traffic} {e : Event} {events : List Event} {cs : List Commit} {job : Job}
  {P : String → Inlet → Prop}

/-- Every change in the history of a node was looked at before it was admitted. -/
theorem Recorded.sensible (h : Recorded t u cs) (horderly : u.Orderly) {c : Commit} (hc : c ∈ cs) :
    c.order.Sensible := by
  have hdone := (h.carriedOut c.job c.order c.result).mpr ⟨c, hc, rfl, rfl, rfl⟩
  obtain ⟨job, hjob, hcarried⟩ := Option.bind_eq_some_iff.mp hdone
  refine horderly.sensible c.job job c.order hjob ?_
  unfold Job.carriedOut? at hcarried
  split at hcarried <;> cases hcarried <;> rfl

/-- What lasts and holds of the first store holds of every inlet that is given to a caller. -/
theorem Recorded.given (h : Recorded t u cs) (horderly : u.Orderly) (hP : Store.Lasting P)
    (ht : t.store.Every P) (hjob : job ∈ u.jobs) {v : Versioned Inlet}
    (hv : job.outcome? = some (.ok v)) : ∃ id, P id v.state := by
  have hsensible : ∀ c ∈ cs, c.order.Sensible := fun c hc => h.sensible horderly hc
  obtain ⟨hbefores, hafters⟩ := h.chain.every h.lawful hsensible hP ht
  obtain ⟨n, hn⟩ := List.mem_iff_getElem?.mp hjob
  unfold Job.outcome? at hv
  split at hv
  next => cases hv
  next caller id outcome =>
    obtain rfl := Option.some.inj hv
    obtain ⟨s, hs, hget⟩ := h.shown n caller id v hn
    unfold Store.get at hget
    split at hget
    next e hlookup =>
      cases hget
      exact ⟨id, (hafters s hs).of_find? (Store.lookup_eq_ok.mp hlookup)⟩
    next => cases hget
  next o outcome =>
    obtain rfl := Option.some.inj hv
    have hdone : u.carriedOut? n = some (o, v) := by
      rw [carriedOut?, hn]
      rfl
    obtain ⟨c, hc, -, -, rfl⟩ := (h.carriedOut n o v).mp hdone
    exact ⟨c.order.id, (h.lawful c hc).given (hsensible c hc) hP (hbefores c hc)⟩
  next => cases hv

/-- A running inlet outlasts every event. -/
theorem Orderly.outlasts (h : t.Orderly) (he : t.next? e = some u) {id : String} {x : Stored}
    (hx : t.store.find? id = some x) (hruns : x.inlet.state = .running) :
    ∃ y, u.store.find? id = some y := by
  rcases commit?_cases he with ⟨-, hstore, -⟩ | ⟨c, k, -, hn, hexecute, hbefore, hafter, -, -, -⟩
  · exact ⟨x, by rw [hstore, hx]⟩
  · have hlawful := h.lawful hn hexecute hbefore
    have hsuccession := hlawful.succession (h.sensible c.job _ c.order hn rfl) id
    rw [hbefore, hx] at hsuccession
    rw [hafter]
    exact hsuccession.outlasts hruns

/-- What holds of the inlets of a node to which some changes have happened since it was given its
seeds. -/
structure Ruled (seeds : List (Inlet × Nat)) (cs : List Commit) (t : Traffic) : Prop where
  /-- Every inlet is stored under its own id. -/
  keyed : t.store.Every fun id i => i.id = id
  /-- If all seeds are presentable, so is every inlet that is stored. -/
  stored : (∀ seed ∈ seeds, seed.1.Presentable) → t.store.Every fun _ i => i.Presentable
  /-- If all seeds are presentable, so is every inlet that is given to a caller. -/
  given : (∀ seed ∈ seeds, seed.1.Presentable) →
    ∀ job ∈ t.jobs, ∀ v, job.outcome? = some (.ok v) → v.state.Presentable
  /-- Nothing but the changes, one after another, has made the store what it is. -/
  chain : Chain (.holding seeds) cs t.store
  /-- Every change makes of its inlet what that may become, or removes it while it rests; what it
  claims of the version makes no difference. -/
  succession : ∀ c ∈ cs, ∀ id, c.Succession id (c.before.find? id) (c.after.find? id)
  /-- Whatever happens next, a running inlet is still there. -/
  outlasting : ∀ (e : Event) (u : Traffic) (id : String) (x : Stored), t.next? e = some u →
    t.store.find? id = some x → x.inlet.state = .running → ∃ y, u.store.find? id = some y

/-- **Inlets live by their rules.** Wherever a course of events leads a node that was given some seeds,
every inlet is stored under its own id; if all seeds are presentable, so is every inlet that is stored
or given to a caller; every change makes of an inlet what it may become, or removes one that rests; and
no event removes a running one. -/
theorem inlets_live_by_rules {kind : String} {policy : Policy} {patience : Duration}
    {membership : Membership} {seeds : List (Inlet × Nat)} {fresh : Nat}
    (h : (start kind policy patience membership (.holding seeds) fresh).run? events = some t) :
    Ruled seeds ((start kind policy patience membership (.holding seeds) fresh).commits events) t := by
  have horderly := Orderly.start.run h
  have hrecorded := recorded Orderly.start rfl h
  have hsensible := fun c hc => hrecorded.sensible horderly (c := c) hc
  have hkeyed : (Store.holding seeds).Every fun id i => i.id = id := .holding fun _ _ => rfl
  have hlasts : ∀ {P : String → Inlet → Prop}, Store.Lasting P → (Store.holding seeds).Every P →
      t.store.Every P := fun hP hs =>
    (hrecorded.chain.every hrecorded.lawful hsensible hP hs).2 _ hrecorded.chain.last_mem
  refine ⟨hlasts Store.lasting_id hkeyed, ?_, ?_, hrecorded.chain, ?_, ?_⟩
  · intro hseeds
    exact hlasts Store.lasting_presentable (.holding hseeds)
  · intro hseeds job hjob v hv
    obtain ⟨-, hpresentable⟩ :=
      hrecorded.given horderly Store.lasting_presentable (.holding hseeds) hjob hv
    exact hpresentable
  · exact fun c hc id => (hrecorded.lawful c hc).succession (hsensible c hc) id
  · exact fun e u id x he hx hruns => horderly.outlasts he hx hruns

/-- An inlet that runs and one that is disabled. -/
def busyAndIdle : List (Inlet × Nat) :=
  [(⟨"p1", "in", "", .running, 1⟩, 0), (⟨"p2", "old", "", .disabled, 1⟩, 0)]

/-- An update that gives an inlet another run state and claims the first version. -/
def turnTo (id : String) (state : RunState) : Operation :=
  .update (some ⟨some ⟨some 0, some "c"⟩, some ⟨some id, none, none, some state, none⟩⟩)

/-- The running inlet is to be removed, the disabled one to be started, and the running one stopped. -/
def attempts : List Event :=
  [.request "a" "p1" (.delete none none), .act 0 .go, .locks (.ask 0 1), .act 0 .go, .act 0 .go,
    .act 0 .go, .act 0 .go, .request "a" "p2" (turnTo "p2" .running), .act 1 .go,
    .locks (.ask 0 3), .act 1 .go, .act 1 .go, .act 1 .go, .act 1 .go,
    .request "a" "p1" (turnTo "p1" .stopped), .act 2 .go, .locks (.ask 0 5), .act 2 .go, .act 2 .go,
    .act 2 .go, .act 2 .go, .act 2 .go, .act 2 .go, .act 2 .go]

/-- Of the attempts only the last one is a step of an inlet's life. -/
theorem inlets_live_by_rules_attempts :
    ∃ t, (start "input port" [⟨"*", "*", [.read, .write]⟩] (.ofSeconds 1) ⟨.standalone, none⟩
        (.holding busyAndIdle) 0).run? attempts = some t ∧
      ((start "input port" [⟨"*", "*", [.read, .write]⟩] (.ofSeconds 1) ⟨.standalone, none⟩
        (.holding busyAndIdle) 0).commits attempts).map (fun c => (c.job, c.result.state.state)) =
          [(2, .stopped)] ∧
      (∀ seed ∈ busyAndIdle, seed.1.Presentable) ∧
      Ruled busyAndIdle ((start "input port" [⟨"*", "*", [.read, .write]⟩] (.ofSeconds 1)
        ⟨.standalone, none⟩ (.holding busyAndIdle) 0).commits attempts) t := by
  have hruns : ((start "input port" [⟨"*", "*", [.read, .write]⟩] (.ofSeconds 1) ⟨.standalone, none⟩
      (.holding busyAndIdle) 0).run? attempts).isSome = true := by decide
  obtain ⟨t, ht⟩ := Option.isSome_iff_exists.mp hruns
  exact ⟨t, ht, by decide, by decide, inlets_live_by_rules ht⟩

end Traffic

end InletRegistry.Registry
