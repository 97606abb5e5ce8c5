import InletRegistry.Proofs.Node.Verbatim

/-!
# Where a response comes from

A response is the coordinator's, which was asked and has answered, or the node made it itself. What the
node makes itself, it makes in one of two ways. A request is heard once its caller is told, its path is
that of an inlet, its method is served there and what it says can be read; from then on the node speaks
for itself, whatever comes of the request. Any other request is set aside: it is answered without a look
at the registry, be it that nobody knows who asks, that there is nothing to be asked, or that the node
merely shows how it is.
-/

namespace InletRegistry.Node

open InletRegistry.Http InletRegistry.Routing InletRegistry.Registry

variable {σ : Type} {n : Node} {r : Request} {now : Nat} {segment : List Char}

/-! ## Requests that are heard -/

/-- What a request for an inlet says can be read, whether it makes sense or not. -/
structure IsLegible (segment : List Char) (r : Request) : Prop where
  id : ∃ id, decodeId segment = .ok id
  body : r.method = "PUT" → r.body.length ≤ greatestBody
  query : r.method = "DELETE" → ∃ q, RemovalQuery.parse (r.target.query.getD "") = .ok q

/-- A request gets as far as the operation that it asks for. -/
def Hears (n : Node) (now : Nat) (r : Request) : Prop :=
  ∃ caller segment, n.callerOf now r = .ok caller ∧
    Route.ofPath? r.target.path = some (.inlet segment) ∧
    (Route.inlet segment).serves r.method = true ∧ IsLegible segment r

/-- What a request that is legible asks for is not turned down unread. -/
theorem IsLegible.readOperation_ne (h : IsLegible segment r) (e : Rejection) :
    readOperation r ≠ .error (.rejected e) := by
  unfold readOperation
  split
  next hput =>
    unfold readUpdate
    rw [if_neg (Nat.not_lt.mpr (h.body hput))]
    repeat' split
    all_goals exact nofun
  next =>
    split
    next hdelete =>
      obtain ⟨q, hq⟩ := h.query hdelete
      rw [readRemoval, hq]
      simp only
      split <;> exact nofun
    next => exact nofun

theorem IsLegible.assessInlet_ne (h : IsLegible segment r) (kind caller : String) (e : Rejection) :
    assessInlet kind caller segment r ≠ .error (.rejected e) := by
  obtain ⟨id, hid⟩ := h.id
  rw [assessInlet, hid]
  simp only
  split
  next fault hfault =>
    intro heq
    exact h.readOperation_ne e (hfault.trans (congrArg Except.error (Except.error.inj heq)))
  next => split <;> exact nofun

/-- What cannot be read is turned down as such. -/
theorem assessInlet_of_not_isLegible (h : ¬ IsLegible segment r) (kind caller : String) :
    ∃ e, assessInlet kind caller segment r = .error (.rejected e) := by
  unfold assessInlet
  cases hid : decodeId segment with
  | error e => exact ⟨e, rfl⟩
  | ok id =>
    have hread : ∃ e, readOperation r = .error (.rejected e) := by
      by_cases hput : r.method = "PUT"
      · refine ⟨.longBody, ?_⟩
        have hlong : r.body.length > greatestBody := by
          refine Nat.not_le.mp fun hle => h ⟨⟨id, hid⟩, fun _ => hle, fun hdelete => ?_⟩
          exact absurd (hput.symm.trans hdelete) (by decide)
        rw [readOperation, if_pos hput, readUpdate, if_pos hlong]
      · by_cases hdelete : r.method = "DELETE"
        · rw [readOperation, if_neg hput, if_pos hdelete, readRemoval]
          cases hq : RemovalQuery.parse (r.target.query.getD "") with
          | error e => exact ⟨e, rfl⟩
          | ok q => exact absurd ⟨⟨id, hid⟩, fun h => absurd h hput, fun _ => ⟨q, hq⟩⟩ h
        · exact absurd ⟨⟨id, hid⟩, fun h => absurd h hput, fun h => absurd h hdelete⟩ h
    obtain ⟨e, he⟩ := hread
    exact ⟨e, by simp only [he]⟩

/-- How a node answers a request that it does not hear. -/
inductive SetsAside (n : Node) (now : Nat) (r : Request) : Response → Prop where
  /-- It cannot be told who asks. -/
  | untold {f : Failure} (hcaller : n.callerOf now r = .error f) : SetsAside n now r (.ofFailure f)
  /-- There is no such path, or not for this method. -/
  | unserved {caller : String} (hcaller : n.callerOf now r = .ok caller) (status : Nat) :
    SetsAside n now r (.empty status)
  /-- It is asked how the node is. -/
  | shown {caller : String} (hcaller : n.callerOf now r = .ok caller) (value : Json) :
    SetsAside n now r (.json 200 value)
  /-- What it says cannot be read. -/
  | illegible {caller : String} (hcaller : n.callerOf now r = .ok caller) (e : Rejection) :
    SetsAside n now r e.response

/-- A request that is heard comes to a task or fails. -/
theorem Hears.assess (h : n.Hears now r) :
    (∃ task, n.assess now r = .ok task) ∨ ∃ f, n.assess now r = .error (n.refuse f) := by
  obtain ⟨caller, segment, hcaller, hroute, hserves, hlegible⟩ := h
  rw [assess_of_inlet hcaller hroute hserves]
  cases hcomes : assessInlet n.service.kind caller segment r with
  | ok task => exact Or.inl ⟨task, rfl⟩
  | error fault =>
    cases fault with
    | rejected e => exact absurd hcomes (hlegible.assessInlet_ne _ _ e)
    | failed f => exact Or.inr ⟨f, rfl⟩

/-- Every other request is set aside. -/
theorem assess_of_not_hears (h : ¬ n.Hears now r) :
    ∃ answer, n.assess now r = .error answer ∧ n.SetsAside now r answer := by
  unfold Node.assess
  cases hcaller : n.callerOf now r with
  | error f => exact ⟨_, rfl, .untold hcaller⟩
  | ok caller =>
    simp only
    cases hroute : Route.ofPath? r.target.path with
    | none => exact ⟨_, rfl, .unserved hcaller 404⟩
    | some route =>
      simp only
      by_cases hserves : route.serves r.method = true
      · simp only [hserves, Bool.not_true, Bool.false_eq_true, ↓reduceIte]
        cases route with
        | health => exact ⟨_, rfl, .shown hcaller _⟩
        | clusterStatus => exact ⟨_, rfl, .shown hcaller _⟩
        | inlet segment =>
          have hillegible : ¬ IsLegible segment r := fun hlegible =>
            h ⟨caller, segment, hcaller, hroute, hserves, hlegible⟩
          obtain ⟨e, he⟩ := assessInlet_of_not_isLegible hillegible n.service.kind caller
          simp only [he]
          exact ⟨_, rfl, .illegible hcaller e⟩
      · simp only [hserves, Bool.not_false, ↓reduceIte]
        exact ⟨_, rfl, .unserved hcaller 405⟩

/-! ## Responses -/

section Responses

variable {meanwhile : Meanwhile} {transport : Transport σ} {s : σ} {answer other : Response}

/-- The coordinator was asked and has given this answer. -/
def Relays (n : Node) (meanwhile : Meanwhile) (transport : Transport σ) (now : Nat) (r : Request) (s : σ)
    (answer : Response) : Prop :=
  ∃ url sent, (n.attend meanwhile (noting transport) now r ([], s)).2.2.1 = [(url, sent)] ∧
    (transport url sent s).1 = .ok answer

theorem relays_iff {url : String} {sent : Request}
    (hasked : (n.attend meanwhile (noting transport) now r ([], s)).2.2.1 = [(url, sent)]) :
    n.Relays meanwhile transport now r s answer ↔ (transport url sent s).1 = .ok answer := by
  constructor
  · rintro ⟨url', sent', hasked', hanswer⟩
    rw [hasked, List.cons.injEq, Prod.mk.injEq] at hasked'
    obtain ⟨⟨rfl, rfl⟩, -⟩ := hasked'
    exact hanswer
  · exact fun hanswer => ⟨url, sent, hasked, hanswer⟩

/-- The coordinator gives one answer. -/
theorem Relays.unique (h : n.Relays meanwhile transport now r s answer)
    (hother : n.Relays meanwhile transport now r s other) : answer = other := by
  obtain ⟨url, sent, hasked, hanswer⟩ := h
  exact Except.ok.inj (hanswer.symm.trans ((relays_iff hasked).mp hother))

/-- A network that was not asked has not answered. -/
theorem not_relays (h : (n.attend meanwhile (noting transport) now r ([], s)).2.2.1 = []) :
    ¬ n.Relays meanwhile transport now r s answer := by
  rintro ⟨url, sent, hasked, -⟩
  rw [h] at hasked
  cases hasked

/-- What a node carries out itself is told under its name, if it keeps that while the task waits. -/
theorem carryThrough_fst (hname : meanwhile.KeepsName) (n : Node) (now : Nat) (task : Task) :
    ∃ m outcome, m.nodeId = n.nodeId ∧ (n.carryThrough meanwhile now task).1 = respond m outcome := by
  have hstarted : (n.start now task).2.nodeId = n.nodeId := rfl
  unfold carryThrough
  generalize n.start now task = started at hstarted
  obtain ⟨⟨ticket⟩ | ⟨outcome⟩, m⟩ := started
  · exact ⟨_, _, (hname ticket m).trans hstarted, rfl⟩
  · exact ⟨_, _, hstarted, rfl⟩

/-- What comes of a task is the coordinator's answer, or an outcome that a node of the same name tells,
provided that a node keeps its name while a request waits. -/
theorem attend_of_task {task : Task} (htask : n.assess now r = .ok task) (hname : meanwhile.KeepsName)
    (transport : Transport σ) (s : σ) :
    let response := (n.attend meanwhile (noting transport) now r ([], s)).1
    (∃ answer, n.Relays meanwhile transport now r s answer ∧
      response = (n.visitOf r).conclude (relay answer)) ∨
    (∀ answer, ¬ n.Relays meanwhile transport now r s answer) ∧
      ∃ m outcome, m.nodeId = n.nodeId ∧ response = (n.visitOf r).conclude (respond m outcome) := by
  intro response
  by_cases hfollower : n.membership.role = .follower
  · have hattend := attend_of_forward htask hfollower meanwhile (noting transport) ([], s)
    have hresponse := congrArg Prod.fst hattend
    have hasked := congrArg (·.2.2.1) hattend
    generalize outgoing (r.identified (n.requestIdOf r)) = sent at hresponse hasked
    simp only [forward] at hresponse hasked
    cases hdestination : destination n.membership sent with
    | error obstacle =>
      rw [hdestination] at hresponse hasked
      exact Or.inr ⟨fun answer => not_relays hasked, n.skipId, .error obstacle.toFailure, rfl, hresponse⟩
    | ok url =>
      rw [hdestination] at hresponse hasked
      have hresponse : response = (n.visitOf r).conclude (n.skipId.relayed (transport url sent s).1) :=
        hresponse
      cases hanswer : (transport url sent s).1 with
      | ok answer =>
        rw [hanswer] at hresponse
        exact Or.inl ⟨answer, (relays_iff hasked).mpr hanswer, hresponse⟩
      | error f =>
        rw [hanswer] at hresponse
        refine Or.inr ⟨fun answer hrelayed => ?_, n.skipId, .error f, rfl, hresponse⟩
        cases hanswer.symm.trans ((relays_iff hasked).mp hrelayed)
  · have hattend := attend_of_local htask hfollower meanwhile (noting transport) ([], s)
    have hresponse : response = (n.visitOf r).conclude (n.skipId.carryThrough meanwhile now task).1 :=
      congrArg Prod.fst hattend
    refine Or.inr ⟨fun answer => not_relays (by rw [hattend]), ?_⟩
    obtain ⟨m, outcome, hm, hcarried⟩ := carryThrough_fst hname n.skipId now task
    exact ⟨m, outcome, hm, hresponse.trans (congrArg _ hcarried)⟩

/-- What a node says itself to a request: what came of it under the node's name if it was heard, and
else why it was set aside. -/
def Says (n : Node) (now : Nat) (r : Request) (answer : Response) : Prop :=
  (n.Hears now r ∧ ∃ m outcome, m.nodeId = n.nodeId ∧ answer = respond m outcome) ∨
    (¬ n.Hears now r ∧ n.SetsAside now r answer)

/-- A response is the coordinator's or the node's own, provided that a node keeps its name while a
request waits. -/
theorem attend_cases (hname : meanwhile.KeepsName) (transport : Transport σ) (now : Nat) (r : Request)
    (n : Node) (s : σ) :
    let response := (n.attend meanwhile (noting transport) now r ([], s)).1
    (∃ answer, n.Relays meanwhile transport now r s answer ∧
      response = (n.visitOf r).conclude (relay answer)) ∨
    (∀ answer, ¬ n.Relays meanwhile transport now r s answer) ∧
      ∃ answer, n.Says now r answer ∧ response = (n.visitOf r).conclude answer := by
  intro response
  by_cases hhears : n.Hears now r
  · have hspeaks : ∀ m outcome, m.nodeId = n.nodeId → n.Says now r (respond m outcome) :=
      fun m outcome hm => Or.inl ⟨hhears, m, outcome, hm, rfl⟩
    rcases hhears.assess with ⟨task, htask⟩ | ⟨f, hf⟩
    · rcases attend_of_task htask hname transport s with
        hrelayed | ⟨hnot, m, outcome, hm, hresponse⟩
      · exact Or.inl hrelayed
      · exact Or.inr ⟨hnot, _, hspeaks m outcome hm, hresponse⟩
    · have hattend := attend_of_error hf meanwhile (noting transport) ([], s)
      refine Or.inr ⟨fun answer => not_relays ?_, _, hspeaks n (.error f) rfl, ?_⟩
      · rw [hattend]
      · exact congrArg Prod.fst hattend
  · obtain ⟨answer, hassess, haside⟩ := assess_of_not_hears hhears
    have hattend := attend_of_error hassess meanwhile (noting transport) ([], s)
    refine Or.inr ⟨fun answer => not_relays ?_, answer, Or.inr ⟨hhears, haside⟩, ?_⟩
    · rw [hattend]
    · exact congrArg Prod.fst hattend

end Responses

end InletRegistry.Node
