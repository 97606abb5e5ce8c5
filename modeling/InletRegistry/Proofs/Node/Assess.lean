import InletRegistry.Node.Basic
import InletRegistry.Proofs.Http.Header

/-!
# What a node makes of a request by itself

Before it matters where a request is carried out, a node either has an answer to it or knows the task
that it comes to. `assess` is that judgement: who calls, which path and which method, what the
request says. It hangs on no lock, on no inlet and on no other node.

`receive_eq` is what the whole of `receive` comes to: an answer is given at once, a follower hands the
request on, and any other node carries the task out. What else is said of requests in this library is
read off it.
-/

namespace InletRegistry

open InletRegistry.Http InletRegistry.Routing InletRegistry.Cluster InletRegistry.Registry

/-- A request with the identifier under which a node knows it. -/
def Http.Request.identified (r : Request) (value : List UInt8) : Request :=
  { r with headers := r.headers.set requestIdHeader value }

namespace Node

variable {σ : Type} {n m : Node} {r r' : Request} {now : Nat} {task : Task} {answer : Response}
  {segment : List Char}

/-- The task of a request for an inlet that a caller makes, or why there is none. -/
def assessInlet (kind caller : String) (segment : List Char) (r : Request) : Except Fault Task :=
  match decodeId segment with
  | .error e => .error (.rejected e)
  | .ok id =>
    match readOperation r with
    | .error fault => .error fault
    | .ok op =>
      match op.toTask kind caller id with
      | .error f => .error (.failed f)
      | .ok task => .ok task

/-- The task of a request is one of its caller. -/
theorem caller_of_assessInlet {kind caller : String}
    (h : assessInlet kind caller segment r = .ok task) : task.caller = caller := by
  unfold assessInlet at h
  split at h
  next => cases h
  next id _ =>
    split at h
    next => cases h
    next op _ =>
      cases htask : op.toTask kind caller id with
      | error f =>
        rw [htask] at h
        cases h
      | ok task' =>
        rw [htask] at h
        rw [← Except.ok.inj h]
        exact Operation.caller_of_toTask htask

/-- The task that a request comes to, or the answer to a request that comes to none. -/
def assess (n : Node) (now : Nat) (r : Request) : Except Response Task :=
  match n.callerOf now r with
  | .error f => .error (.ofFailure f)
  | .ok caller =>
    match Route.ofPath? r.target.path with
    | none => .error (.empty 404)
    | some route =>
      if !route.serves r.method then .error (.empty 405)
      else match route with
        | .health => .error (.json 200 healthy)
        | .clusterStatus => .error (.json 200 n.status)
        | .inlet segment =>
          match assessInlet n.service.kind caller segment r with
          | .error fault => .error (n.faultResponse fault)
          | .ok task => .ok task

/-- The task of a request is that of the caller who is told. -/
theorem caller_of_assess {caller : String} (hcaller : n.callerOf now r = .ok caller)
    (h : n.assess now r = .ok task) : task.caller = caller := by
  unfold assess at h
  rw [hcaller] at h
  simp only at h
  split at h
  next => cases h
  next route _ =>
    split at h
    next => cases h
    next =>
      cases route with
      | health | clusterStatus => cases h
      | inlet segment =>
        simp only at h
        cases htask : assessInlet n.service.kind caller segment r with
        | error fault =>
          rw [htask] at h
          cases h
        | ok task' =>
          rw [htask] at h
          rw [← Except.ok.inj h]
          exact caller_of_assessInlet htask

/-- A request for an inlet from a caller who is told comes to what it says. -/
theorem assess_of_inlet {caller : String} (hcaller : n.callerOf now r = .ok caller)
    (hroute : Route.ofPath? r.target.path = some (.inlet segment))
    (hserves : (Route.inlet segment).serves r.method = true) :
    n.assess now r =
      match assessInlet n.service.kind caller segment r with
      | .error fault => .error (n.faultResponse fault)
      | .ok task => .ok task := by
  have hmethod : (!(Route.inlet segment).serves r.method) = false := by rw [hserves, Bool.not_true]
  unfold assess
  rw [hcaller, hroute]
  simp only [hmethod, Bool.false_eq_true, ↓reduceIte]

/-- What becomes of a task at a node that has got its request over a network. -/
def undertake (transport : Transport σ) (now : Nat) (task : Task) (r : Request) (n : Node) (s : σ) :
    Progress × Node × σ :=
  if n.membership.mustForward then
    let (answer, s) := forward transport n.membership (outgoing r) s
    (.answered (n.relayed answer), n, s)
  else match n.start now task with
    | (.ok outcome, n) => (.answered (n.respond outcome), n, s)
    | (.error ticket, n) => (.waiting ticket, n, s)

@[simp] theorem sign_status (n : Node) (r : Response) : (n.sign r).status = r.status := by
  unfold sign
  cases headerValue? n.nodeId <;> rfl

@[simp] theorem sign_body (n : Node) (r : Response) : (n.sign r).body = r.body := by
  unfold sign
  cases headerValue? n.nodeId <;> rfl

theorem forward_beside (transport : Transport σ) (m : Membership) (r : Request) (n : Node) (s : σ) :
    forward (beside transport) m r (n, s) =
      ((forward transport m r s).1, n, (forward transport m r s).2) := by
  unfold forward
  cases destination m r <;> rfl

theorem visitInlet_eq (transport : Transport σ) (caller : String) (s : σ) :
    n.visitInlet transport now caller segment r s =
      match assessInlet n.service.kind caller segment r with
      | .error fault => (.answered (n.faultResponse fault), n, s)
      | .ok task => n.undertake transport now task r s := by
  unfold visitInlet assessInlet
  cases decodeId segment with
  | error e => rfl
  | ok id =>
    simp only
    cases readOperation r with
    | error fault => rfl
    | ok op =>
      simp only [operate]
      cases op.toTask n.service.kind caller id with
      | error f => rfl
      | ok task =>
        simp only [undertake, dispatch, forward_beside]
        by_cases hforward : n.membership.mustForward = true
        · simp only [hforward, ↓reduceIte]
        · simp only [hforward, Bool.false_eq_true, ↓reduceIte]
          rcases n.start now task with ⟨⟨ticket⟩ | ⟨outcome⟩, n⟩ <;> rfl

/-- What a request comes to on its route is answered at once, or is a task of the caller. -/
theorem visitRoute_cases (transport : Transport σ) (now : Nat) (caller : String) (r : Request) (n : Node)
    (s : σ) :
    (∃ answer, n.visitRoute transport now caller r s = (.answered answer, n, s)) ∨
      ∃ task : Task, task.caller = caller ∧
        n.visitRoute transport now caller r s = n.undertake transport now task r s := by
  unfold visitRoute
  cases Route.ofPath? r.target.path with
  | none => exact .inl ⟨_, rfl⟩
  | some route =>
    by_cases hserves : (!route.serves r.method) = true
    · exact .inl ⟨.empty 405, by simp only [hserves, ↓reduceIte]⟩
    simp only [hserves, Bool.false_eq_true, ↓reduceIte]
    cases route with
    | health => exact .inl ⟨_, rfl⟩
    | clusterStatus => exact .inl ⟨_, rfl⟩
    | inlet segment =>
      simp only [visitInlet_eq]
      cases htask : assessInlet n.service.kind caller segment r with
      | error fault => exact .inl ⟨_, rfl⟩
      | ok task => exact .inr ⟨task, caller_of_assessInlet htask, rfl⟩

theorem visitRoute_eq (transport : Transport σ) {caller : String} (s : σ)
    (hcaller : n.callerOf now r = .ok caller) :
    n.visitRoute transport now caller r s =
      match n.assess now r with
      | .error answer => (.answered answer, n, s)
      | .ok task => n.undertake transport now task r s := by
  unfold visitRoute assess
  rw [hcaller]
  simp only
  cases Route.ofPath? r.target.path with
  | none => rfl
  | some route =>
    simp only
    by_cases hserves : (!route.serves r.method) = true
    · simp only [hserves, ↓reduceIte]
    · simp only [hserves, Bool.false_eq_true, ↓reduceIte]
      cases route with
      | health => rfl
      | clusterStatus => rfl
      | inlet segment =>
        simp only [visitInlet_eq]
        cases assessInlet n.service.kind caller segment r <;> rfl

/-! ## What the judgement hangs on -/

/-- The number of the next identifier does not matter. -/
theorem assess_skipId : n.skipId.assess now r = n.assess now r := rfl

/-- Of what a node has, only an answer about the node itself tells. -/
theorem assess_withService (now : Nat) (r : Request) {s : Service} (hkind : s.kind = n.service.kind) :
    ({ n with service := s } : Node).assess now r = n.assess now r ∨
      (n.assess now r = .error (.json 200 n.status) ∧
        ({ n with service := s } : Node).assess now r =
          .error (.json 200 ({ n with service := s } : Node).status)) := by
  have hcaller : ({ n with service := s } : Node).callerOf now r = n.callerOf now r := rfl
  unfold assess
  rw [hcaller, hkind]
  cases n.callerOf now r with
  | error f => exact Or.inl rfl
  | ok caller =>
    cases Route.ofPath? r.target.path with
    | none => exact Or.inl rfl
    | some route =>
      simp only
      by_cases hserves : (!route.serves r.method) = true
      · simp only [hserves, ↓reduceIte, true_or]
      · simp only [hserves, Bool.false_eq_true, ↓reduceIte]
        cases route with
        | health => exact Or.inl rfl
        | clusterStatus => exact Or.inr ⟨rfl, rfl⟩
        | inlet segment =>
          left
          cases assessInlet n.service.kind caller segment r <;> rfl

theorem callerOf_identified (value : List UInt8) :
    n.callerOf now (r.identified value) = n.callerOf now r := by
  have hne : "authorization" ≠ requestIdHeader := by decide
  simp only [callerOf, Http.Request.identified, Headers.first?_set_ne hne]

/-- The identifier of a request does not matter. -/
theorem assess_identified (value : List UInt8) :
    n.assess now (r.identified value) = n.assess now r := by
  unfold assess
  rw [callerOf_identified]
  rfl

/-- Nor does the hop: the coordinator makes of a request what its follower made of it. -/
theorem assess_onward : n.assess now (onward r) = n.assess now r := by
  have hcaller : n.callerOf now (onward r) = n.callerOf now r := by
    have hfield : (onward r).headers.first? "authorization" = r.headers.first? "authorization" :=
      first?_onward (by decide) (by decide)
    show Access.callerOf _ _ _ (((onward r).headers.first? "authorization").bind headerText?) = _
    rw [hfield]
    rfl
  unfold assess
  rw [hcaller]
  rfl

/-- The body matters to an update alone, and that keeps it. -/
theorem assess_outgoing : n.assess now (outgoing r) = n.assess now r := by
  by_cases hput : r.method = "PUT"
  · rw [outgoing, if_pos hput]
  · have hread : readOperation { r with body := [] } = readOperation r := by
      simp only [readOperation, hput, ↓reduceIte]
    rw [outgoing, if_neg hput]
    unfold assess assessInlet
    rw [hread]
    rfl

/-- What is sent bears the mark of a hop exactly if the request came with it. -/
theorem isForwarded_outgoing_identified (value : List UInt8) :
    isForwarded (outgoing (r.identified value)) = isForwarded r := by
  have hset : (r.identified value).headers.has forwardedHeader = r.headers.has forwardedHeader :=
    Headers.has_set_ne (by decide)
  unfold outgoing
  split <;> exact hset

/-! ## What the judgement says by itself -/

/-- Whether a node could tell callers apart: it has a secret if it has to check tokens. -/
def CanTellCallers (n : Node) : Prop := n.auth.enabled = true → n.auth.jwtSecret ≠ none

/-- A caller who cannot be told is not authenticated, unless the node has no secret. -/
theorem callerOf_status {f : Failure} (h : n.callerOf now r = .error f) :
    f.status = 401 ∨ f.status = 500 ∧ ¬ n.CanTellCallers := by
  unfold callerOf Access.callerOf at h
  split at h
  next => cases h
  next hchecks =>
    split at h
    next hnone =>
      cases h
      refine Or.inr ⟨rfl, fun hcan => hcan ?_ hnone⟩
      simp only [Bool.or_eq_true, Bool.not_eq_true', not_or, Bool.not_eq_false] at hchecks
      exact hchecks.1
    next =>
      split at h
      next =>
        cases h
        exact Or.inl rfl
      next =>
        unfold Access.authenticate Access.Secret.authenticate at h
        simp only at h
        split at h
        next =>
          cases h
          exact Or.inl rfl
        next =>
          split at h
          next =>
            unfold Access.Secret.validate at h
            split at h <;> cases h
            exact Or.inl rfl
          next =>
            cases h
            exact Or.inl rfl

theorem rejection_status (e : Rejection) : e.response.status ∈ [400, 413] := by
  cases e <;> simp [Rejection.response, Response.plain]

theorem badRequest_status (text : String) :
    (n.faultResponse (.failed (.badRequest text))).status ∈ [400, 413] := by
  show (n.sign _).status ∈ [400, 413]
  rw [sign_status]
  exact List.mem_cons_self

theorem claimedVersion_error {q : RemovalQuery} {f : Failure} (h : q.claimedVersion = .error f) :
    ∃ text, f = .badRequest text := by
  unfold RemovalQuery.claimedVersion at h
  split at h
  next => cases h
  next =>
    simp only at h
    repeat' split at h
    all_goals cases h
    exact ⟨_, rfl⟩

theorem readUpdate_status {body : List UInt8} {fault : Fault} (h : readUpdate body = .error fault) :
    (n.faultResponse fault).status ∈ [400, 413] := by
  unfold readUpdate at h
  split at h
  next =>
    cases h
    exact rejection_status _
  next =>
    split at h
    next => cases h
    next =>
      split at h <;> cases h
      exact badRequest_status _

theorem readRemoval_status {query : String} {fault : Fault} (h : readRemoval query = .error fault) :
    (n.faultResponse fault).status ∈ [400, 413] := by
  unfold readRemoval at h
  split at h
  next =>
    cases h
    exact rejection_status _
  next =>
    split at h
    next hclaimed =>
      cases h
      obtain ⟨text, rfl⟩ := claimedVersion_error hclaimed
      exact badRequest_status text
    next => cases h

theorem readOperation_status {fault : Fault} (h : readOperation r = .error fault) :
    (n.faultResponse fault).status ∈ [400, 413] := by
  unfold readOperation at h
  split at h
  next => exact readUpdate_status h
  next =>
    split at h
    next => exact readRemoval_status h
    next => cases h

/-- What a request says is turned down as malformed or too long, if it is. -/
theorem assessInlet_status {kind caller : String} {fault : Fault}
    (h : assessInlet kind caller segment r = .error fault) :
    (n.faultResponse fault).status ∈ [400, 413] := by
  unfold assessInlet at h
  split at h
  next =>
    cases h
    exact rejection_status _
  next id _ =>
    split at h
    next hread =>
      cases h
      exact readOperation_status hread
    next op _ =>
      split at h
      next hfault =>
        cases h
        unfold Operation.toTask at hfault
        split at hfault
        next => cases hfault
        next =>
          split at hfault <;> cases hfault
          exact badRequest_status _
        next => cases hfault
      next => cases h

/-- What a node answers by itself: it shows how it is, or turns down what it cannot serve, read or
attribute to a caller. -/
theorem assess_status (h : n.assess now r = .error answer) :
    answer.status ∈ [200, 400, 401, 404, 405, 413] ∨ answer.status = 500 ∧ ¬ n.CanTellCallers := by
  unfold assess at h
  split at h
  next f hcaller =>
    cases h
    rcases callerOf_status hcaller with hstatus | hfault
    · left
      rw [show (Response.ofFailure f).status = f.status from rfl, hstatus]
      decide
    · exact Or.inr hfault
  next caller _ =>
    left
    cases hroute : Route.ofPath? r.target.path with
    | none =>
      rw [hroute] at h
      cases h
      simp [Response.empty]
    | some route =>
      rw [hroute] at h
      simp only at h
      split at h
      next =>
        cases h
        simp [Response.empty]
      next =>
        cases route with
        | health | clusterStatus =>
          cases h
          exact List.mem_cons_self
        | inlet segment =>
          simp only at h
          cases hassess : assessInlet n.service.kind caller segment r with
          | error fault =>
            rw [hassess] at h
            cases h
            have hsubset : [400, 413] ⊆ [200, 400, 401, 404, 405, 413] := by decide
            exact hsubset (assessInlet_status hassess)
          | ok task =>
            rw [hassess] at h
            cases h

/-- What a node turns down by itself, it does not deny: what the caller may do has not been looked at. -/
theorem assess_ne_denied (h : n.assess now r = .error answer) : answer.status ≠ 403 := by
  rcases assess_status h with hlisted | ⟨hfault, -⟩
  · intro hdenied
    rw [hdenied] at hlisted
    exact absurd hlisted (by decide)
  · rw [hfault]
    exact Nat.ne_of_beq_eq_false rfl

/-! ## The whole of `receive` -/

/-- **How far a request comes.** An answer is given at once if the request comes to no task; otherwise
a follower hands it on, and any other node carries it out. -/
theorem receive_eq (transport : Transport σ) (now : Nat) (r : Request) (n : Node) (s : σ) :
    n.receive transport now r s =
      match n.assess now r with
      | .error answer =>
        (n.visitOf r, .answered ((n.visitOf r).conclude answer), n.skipId, s)
      | .ok task =>
        match n.skipId.undertake transport now task (r.identified (n.requestIdOf r)) s with
        | (.answered answer, n', s) => (n.visitOf r, .answered ((n.visitOf r).conclude answer), n', s)
        | (.waiting ticket, n', s) => (n.visitOf r, .waiting ticket, n', s) := by
  rw [← assess_skipId, ← assess_identified (n.requestIdOf r)]
  cases hcaller : n.skipId.callerOf now (r.identified (n.requestIdOf r)) with
  | error f =>
    have hassess : n.skipId.assess now (r.identified (n.requestIdOf r)) = .error (.ofFailure f) := by
      rw [assess, hcaller]
    rw [hassess]
    show (match n.skipId.callerOf now (r.identified (n.requestIdOf r)) with
      | .error f => _
      | .ok caller => _) = _
    rw [hcaller]
  | ok caller =>
    show (match n.skipId.callerOf now (r.identified (n.requestIdOf r)) with
      | .error f => _
      | .ok caller =>
        match n.skipId.visitRoute transport now caller (r.identified (n.requestIdOf r)) s with
        | (.answered answer, n', s) => _
        | (.waiting ticket, n', s) => _) = _
    rw [hcaller]
    simp only [visitRoute_eq transport s hcaller]
    cases n.skipId.assess now (r.identified (n.requestIdOf r)) <;> rfl

end Node

end InletRegistry
