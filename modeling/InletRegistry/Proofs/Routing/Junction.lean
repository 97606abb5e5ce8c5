import InletRegistry.Proofs.Cluster.Membership
import InletRegistry.Routing.Junction

/-!
# A dispatch does one thing

A dispatch asks for the role and, if it has to, for the address at two moments, and the node may be told
another role before, between and after them. What it does hangs on what the node had been told by the
first moment and by the second (`Did`), and on nothing older: an address that was known before the node
took over is never used again, unless it was given anew.

`Account` says for every stage how a dispatch got there. It is kept by every event, whoever's it is, so it
holds of every dispatch in any course.
-/

namespace InletRegistry.Routing

open InletRegistry.Http InletRegistry.Cluster

variable {σ α : Type} {transport : Transport σ} {c : ClusterSettings} {m : Membership} {r : Request}
  {carryOut : σ → α × σ} {s s' : σ} {d : Dispatch σ α} {stage : Stage α}
  {deeds new : List (Deed σ α)} {now : List RoleCall}

/-- What a dispatch that has decided and looked for the coordinator at moments at which the node had been
told its role in some calls answers, and what was done for it, in a state. -/
inductive Did (transport : Transport σ) (c : ClusterSettings) (decided looked : List RoleCall)
    (r : Request) (carryOut : σ → α × σ) (s : σ) : Reply α → List (Deed σ α) → Prop where
  /-- No follower: the request is carried out here, once. -/
  | here (hrole : c.standing decided ≠ .follower) :
    Did transport c decided looked r carryOut s (.here (carryOut s).1) [.carriedOut carryOut]
  /-- A follower that got the request from another one: nothing is done. -/
  | marked (hrole : c.standing decided = .follower) (hmark : isForwarded r = true) :
    Did transport c decided looked r carryOut s
      (.sentOn (.error Obstacle.alreadyForwarded.toFailure)) []
  /-- A follower that does not know where the coordinator is: nothing is done. -/
  | lost (hrole : c.standing decided = .follower) (hmark : isForwarded r = false)
    (hurl : c.address looked = none) :
    Did transport c decided looked r carryOut s
      (.sentOn (.error Obstacle.unknownCoordinator.toFailure)) []
  /-- A follower that knows it: the request is sent there as it came, once, and the answer is the
  coordinator's. -/
  | sentOn {url : String} (hrole : c.standing decided = .follower) (hmark : isForwarded r = false)
    (hurl : c.address looked = some url) :
    Did transport c decided looked r carryOut s (.sentOn (transport url r s).1) [.called url r]

/-! ## One step -/

/-- What a step of a dispatch may be. -/
inductive Dispatch.Step (transport : Transport σ) (m : Membership) (d : Dispatch σ α) (s : σ) :
    Stage α → σ → List (Deed σ α) → Prop where
  | alone (hstage : d.stage = .arrived) (hanswer : m.isClustered = false) :
    Step transport m d s .staying s []
  | clustered (hstage : d.stage = .arrived) (hanswer : m.isClustered = true) :
    Step transport m d s .clustered s []
  | stay (hstage : d.stage = .clustered) (hanswer : m.isCoordinator = true) :
    Step transport m d s .staying s []
  | leave (hstage : d.stage = .clustered) (hanswer : m.isCoordinator = false) :
    Step transport m d s .leaving s []
  | carryOut (hstage : d.stage = .staying) :
    Step transport m d s (.done (.here (d.carryOut s).1)) (d.carryOut s).2 [.carriedOut d.carryOut]
  | refuse {o : Obstacle} (hstage : d.stage = .leaving) (hwhere : destination m d.request = .error o) :
    Step transport m d s (.done (.sentOn (.error o.toFailure))) s []
  | address {url : String} (hstage : d.stage = .leaving) (hwhere : destination m d.request = .ok url) :
    Step transport m d s (.calling url) s []
  | call {url : String} (hstage : d.stage = .calling url) :
    Step transport m d s (.done (.sentOn (transport url d.request s).1)) (transport url d.request s).2
      [.called url d.request]

theorem Dispatch.step_of_advance? (h : d.advance? transport m s = some (stage, s', new)) :
    d.Step transport m s stage s' new := by
  unfold advance? at h
  split at h
  next hstage =>
    cases h
    split
    next hyes => exact .clustered hstage hyes
    next hno => exact .alone hstage (Bool.eq_false_iff.mpr hno)
  next hstage =>
    cases h
    split
    next hyes => exact .stay hstage hyes
    next hno => exact .leave hstage (Bool.eq_false_iff.mpr hno)
  next hstage =>
    cases h
    exact .carryOut hstage
  next hstage =>
    split at h
    next hwhere =>
      cases h
      exact .refuse hstage hwhere
    next hwhere =>
      cases h
      exact .address hstage hwhere
  next hstage =>
    cases h
    exact .call hstage
  next => cases h

/-- A dispatch that is not done can go on. -/
theorem Dispatch.exists_advance? (transport : Transport σ) (m : Membership) (s : σ)
    (h : d.stage.isDone = false) : ∃ stage s' new, d.advance? transport m s = some (stage, s', new) := by
  unfold advance?
  cases hstage : d.stage with
  | leaving =>
    simp only
    cases destination m d.request <;> exact ⟨_, _, _, rfl⟩
  | done reply =>
    rw [hstage] at h
    cases h
  | _ => exact ⟨_, _, _, rfl⟩

theorem destination_eq_ok {url : String} (h : destination m r = .ok url) :
    isForwarded r = false ∧ m.coordinatorUrl = some url := by
  unfold destination at h
  split at h
  next => cases h
  next hmark =>
    split at h <;> cases h
    next hknown => exact ⟨Bool.eq_false_iff.mpr hmark, hknown⟩

/-- A follower that cannot send a request on does nothing. -/
theorem did_of_obstacle {decided looked : List RoleCall} {o : Obstacle}
    (hrole : c.standing decided = .follower) (hurl : m.coordinatorUrl = c.address looked)
    (h : destination m r = .error o) :
    Did transport c decided looked r carryOut s (.sentOn (.error o.toFailure)) [] := by
  unfold destination at h
  split at h
  next hmark =>
    cases h
    exact .marked hrole hmark
  next hmark =>
    split at h <;> cases h
    next hknown => exact .lost hrole (Bool.eq_false_iff.mpr hmark) (hurl ▸ hknown)

/-- A whole dispatch at one moment. -/
theorem dispatch_did (carryOut : σ → α × σ) (r : Request) (s : σ) (hrole : m.role = c.standing now)
    (hurl : m.coordinatorUrl = c.address now) :
    ∃ deeds, Did transport c now now r carryOut s (dispatch transport carryOut m r s).1 deeds ∧
      (dispatch transport carryOut m r s).2 = deeds.foldl (Deed.effect transport) s := by
  by_cases hforward : m.mustForward = true
  · have hfollower : c.standing now = .follower := hrole ▸ Membership.mustForward_iff.mp hforward
    simp only [dispatch, hforward, ↓reduceIte, forward]
    cases hwhere : destination m r with
    | error o => exact ⟨[], did_of_obstacle hfollower hurl hwhere, rfl⟩
    | ok url =>
      obtain ⟨hmark, hknown⟩ := destination_eq_ok hwhere
      exact ⟨[.called url r], .sentOn hfollower hmark (hurl ▸ hknown), rfl⟩
  · simp only [dispatch, hforward, Bool.false_eq_true, ↓reduceIte]
    refine ⟨[.carriedOut carryOut], .here ?_, rfl⟩
    rw [← hrole]
    exact fun hfollower => hforward (Membership.mustForward_iff.mpr hfollower)

/-- What a dispatch comes to if nothing happens before it is done. -/
def Dispatch.finish (transport : Transport σ) (m : Membership) (d : Dispatch σ α) (s : σ) :
    Reply α × σ :=
  let stay : Reply α × σ := (.here (d.carryOut s).1, (d.carryOut s).2)
  let leave : Reply α × σ :=
    (.sentOn (forward transport m d.request s).1, (forward transport m d.request s).2)
  match d.stage with
  | .arrived => dispatch transport d.carryOut m d.request s
  | .clustered => if m.isCoordinator then stay else leave
  | .staying => stay
  | .leaving => leave
  | .calling url => (.sentOn (transport url d.request s).1, (transport url d.request s).2)
  | .done reply => (reply, s)

/-- A dispatch that is done comes to what it has answered. -/
theorem Dispatch.finish_of_done (h : d.stage.isDone = true) (transport : Transport σ) (m : Membership)
    (s : σ) : d.stage = .done (d.finish transport m s).1 ∧ s = (d.finish transport m s).2 := by
  cases hstage : d.stage with
  | done reply => simp only [Dispatch.finish, hstage, and_self]
  | _ =>
    rw [hstage] at h
    cases h

namespace Dispatch.Step

/-- A dispatch that is done takes no step. -/
theorem not_done (h : d.Step transport m s stage s' new) : d.stage.isDone = false := by
  cases h with
  | alone hstage | clustered hstage | stay hstage | leave hstage | carryOut hstage | refuse hstage
  | address hstage | call hstage =>
    rw [hstage]
    rfl

/-- Every step brings a dispatch closer to its end. -/
theorem stepsLeft_lt (h : d.Step transport m s stage s' new) : stage.stepsLeft < d.stage.stepsLeft := by
  cases h with
  | alone hstage | clustered hstage | stay hstage | leave hstage | carryOut hstage | refuse hstage
  | address hstage | call hstage =>
    simp only [hstage, Stage.stepsLeft, Nat.reduceLT]

/-- What is done in a step is what the step makes of the state. -/
theorem effect (h : d.Step transport m s stage s' new) :
    s' = new.foldl (Deed.effect transport) s := by
  cases h <;> rfl

/-- No step changes what a dispatch comes to. -/
theorem finish (h : d.Step transport m s stage s' new) :
    Dispatch.finish transport m { d with stage } s' = d.finish transport m s := by
  cases h with
  | alone hstage hanswer =>
    simp only [Dispatch.finish, hstage, dispatch, Membership.mustForward, hanswer, Bool.false_and,
      Bool.false_eq_true, ↓reduceIte]
  | clustered hstage hanswer =>
    simp only [Dispatch.finish, hstage, dispatch, Membership.mustForward, hanswer, Bool.true_and]
    cases m.isCoordinator <;> rfl
  | stay hstage hanswer | leave hstage hanswer =>
    simp only [Dispatch.finish, hstage, hanswer, Bool.false_eq_true, ↓reduceIte]
  | carryOut hstage | call hstage => simp only [Dispatch.finish, hstage]
  | refuse hstage hwhere | address hstage hwhere =>
    simp only [Dispatch.finish, hstage, forward, hwhere]

end Dispatch.Step

/-! ## How a dispatch got so far -/

/-- How a dispatch got to its stage, by decisions that were taken at moments of its course. -/
def Account (transport : Transport σ) (c : ClusterSettings) (moment : List RoleCall → σ → Prop)
    (r : Request) (carryOut : σ → α × σ) (deeds : List (Deed σ α)) : Stage α → Prop
  | .arrived => deeds = []
  | .clustered => deeds = [] ∧ c.enabled = true
  | .staying => deeds = [] ∧ ∃ decided x, moment decided x ∧ c.standing decided ≠ .follower
  | .leaving => deeds = [] ∧ ∃ decided x, moment decided x ∧ c.standing decided = .follower
  | .calling url => deeds = [] ∧ isForwarded r = false ∧
    ∃ decided x looked y, moment decided x ∧ moment looked y ∧ decided <+: looked ∧
      c.standing decided = .follower ∧ c.address looked = some url
  | .done reply => ∃ decided x looked y acted s, moment decided x ∧ moment looked y ∧
    moment acted s ∧ decided <+: looked ∧ looked <+: acted ∧
    Did transport c decided looked r carryOut s reply deeds

/-- Nothing is done for a dispatch before its last step. -/
theorem Account.deeds_of_not_done {moment : List RoleCall → σ → Prop}
    (h : Account transport c moment r carryOut deeds stage) (hdone : stage.isDone = false) :
    deeds = [] := by
  cases stage with
  | arrived => exact h
  | clustered | staying | leaving | calling => exact h.1
  | done reply => cases hdone

theorem Account.mono {moment moment' : List RoleCall → σ → Prop}
    (h : Account transport c moment r carryOut deeds stage)
    (hmoment : ∀ calls x, moment calls x → moment' calls x) :
    Account transport c moment' r carryOut deeds stage := by
  cases stage with
  | arrived | clustered => exact h
  | staying | leaving =>
    obtain ⟨hdeeds, decided, x, hdecided, hrole⟩ := h
    exact ⟨hdeeds, decided, x, hmoment _ _ hdecided, hrole⟩
  | calling url =>
    obtain ⟨hdeeds, hmark, decided, x, looked, y, hdecided, hlooked, hrest⟩ := h
    exact ⟨hdeeds, hmark, decided, x, looked, y, hmoment _ _ hdecided, hmoment _ _ hlooked, hrest⟩
  | done reply =>
    obtain ⟨decided, x, looked, y, acted, s, hdecided, hlooked, hacted, hrest⟩ := h
    exact ⟨decided, x, looked, y, acted, s, hmoment _ _ hdecided, hmoment _ _ hlooked,
      hmoment _ _ hacted, hrest⟩

/-- What a dispatch asks is answered as things stand now, so its account goes on with this moment. -/
theorem Account.advance {moment moment' : List RoleCall → σ → Prop}
    (h : Account transport c moment d.request d.carryOut deeds d.stage)
    (hold : ∀ calls x, moment calls x → moment' calls x ∧ calls <+: now) (hnow : moment' now s)
    (hclustered : m.isClustered = c.enabled) (hrole : m.role = c.standing now)
    (hurl : m.coordinatorUrl = c.address now) (hstep : d.Step transport m s stage s' new) :
    Account transport c moment' d.request d.carryOut (deeds ++ new) stage := by
  cases hstep with
  | alone hstage hanswer =>
    rw [hstage] at h
    obtain rfl : deeds = [] := h
    refine ⟨rfl, now, s, hnow, ?_⟩
    rw [ClusterSettings.standing_of_disabled (hclustered ▸ hanswer)]
    exact nofun
  | clustered hstage hanswer =>
    rw [hstage] at h
    obtain rfl : deeds = [] := h
    exact ⟨rfl, hclustered ▸ hanswer⟩
  | stay hstage hanswer =>
    rw [hstage] at h
    obtain ⟨rfl, -⟩ := h
    refine ⟨rfl, now, s, hnow, ?_⟩
    rw [← hrole, show m.role = .coordinator from of_decide_eq_true hanswer]
    exact nofun
  | leave hstage hanswer =>
    rw [hstage] at h
    obtain ⟨rfl, henabled⟩ := h
    have hmust : m.mustForward = true := by
      rw [Membership.mustForward, hclustered, henabled, hanswer]
      rfl
    exact ⟨rfl, now, s, hnow, hrole ▸ Membership.mustForward_iff.mp hmust⟩
  | carryOut hstage =>
    rw [hstage] at h
    obtain ⟨rfl, decided, x, hdecided, hstays⟩ := h
    obtain ⟨hdecided, hbefore⟩ := hold decided x hdecided
    exact ⟨decided, x, decided, x, now, s, hdecided, hdecided, hnow, List.prefix_refl _, hbefore,
      .here hstays⟩
  | refuse hstage hwhere =>
    rw [hstage] at h
    obtain ⟨rfl, decided, x, hdecided, hleaves⟩ := h
    obtain ⟨hdecided, hbefore⟩ := hold decided x hdecided
    exact ⟨decided, x, now, s, now, s, hdecided, hnow, hnow, hbefore, List.prefix_refl _,
      did_of_obstacle hleaves hurl hwhere⟩
  | address hstage hwhere =>
    rw [hstage] at h
    obtain ⟨rfl, decided, x, hdecided, hleaves⟩ := h
    obtain ⟨hdecided, hbefore⟩ := hold decided x hdecided
    obtain ⟨hmark, hknown⟩ := destination_eq_ok hwhere
    exact ⟨rfl, hmark, decided, x, now, s, hdecided, hnow, hbefore, hleaves, hurl ▸ hknown⟩
  | call hstage =>
    rw [hstage] at h
    obtain ⟨rfl, hmark, decided, x, looked, y, hdecided, hlooked, hprefix, hleaves, hknown⟩ := h
    obtain ⟨hlooked, hbefore⟩ := hold looked y hlooked
    exact ⟨decided, x, looked, y, now, s, (hold decided x hdecided).1, hlooked, hnow, hprefix, hbefore,
      .sentOn hleaves hmark hknown⟩

namespace Junction

variable {t u j : Junction σ α} {e : Event σ α} {events : List (Event σ α)} {n k : Nat} {x : σ}
  {calls : List RoleCall}

/-! ## One event -/

theorem next?_cases (he : t.next? transport e = some u) :
    (∃ call, e = .role call ∧ u = { t with membership := t.membership.heed call }) ∨
    (∃ r carryOut, e = .arrive r carryOut ∧
      u = { t with dispatches := t.dispatches ++ [⟨r, carryOut, .arrived⟩] }) ∨
    (∃ n d stage state new, e = .go n ∧ t.dispatches[n]? = some d ∧
      d.advance? transport t.membership t.state = some (stage, state, new) ∧
      u = { t with
        state
        dispatches := t.dispatches.set n { d with stage }
        deeds := t.deeds ++ new.map (n, ·) }) := by
  cases e with
  | role call => exact Or.inl ⟨call, rfl, (Option.some.inj he).symm⟩
  | arrive r carryOut => exact Or.inr (Or.inl ⟨r, carryOut, rfl, (Option.some.inj he).symm⟩)
  | go n =>
    obtain ⟨d, hd, hgo⟩ := Option.bind_eq_some_iff.mp he
    obtain ⟨⟨stage, state, new⟩, hstep, rfl⟩ := Option.map_eq_some_iff.mp hgo
    exact Or.inr (Or.inr ⟨n, d, stage, state, new, rfl, hd, hstep, rfl⟩)

theorem next?_go (hd : t.dispatches[n]? = some d)
    (hstep : d.advance? transport t.membership t.state = some (stage, s', new)) :
    t.next? transport (.go n) = some { t with
      state := s'
      dispatches := t.dispatches.set n { d with stage }
      deeds := t.deeds ++ new.map (n, ·) } := by
  simp only [next?, hd, Option.bind_some, hstep, Option.map_some]

/-- What is done for one dispatch is not done for another. -/
theorem filter_deeds (n k : Nat) (new : List (Deed σ α)) :
    ((new.map (n, ·)).filter (·.1 = k)).map Prod.snd = if n = k then new else [] := by
  induction new with
  | nil => split <;> rfl
  | cons deed new ih =>
    by_cases hnk : n = k
    · simp only [hnk, if_true] at ih ⊢
      simp [ih]
    · simp only [hnk, if_false] at ih ⊢
      simp [hnk]

/-! ## Moments -/

/-- That the dispatch of a number had come and was not done at a moment of a course, when the node had
been told its role in some calls and was in some state. -/
def UnderWay (transport : Transport σ) (j : Junction σ α) (events : List (Event σ α)) (n : Nat)
    (calls : List RoleCall) (s : σ) : Prop :=
  ∃ before after t d, events = before ++ after ∧ j.run? transport before = some t ∧
    t.dispatches[n]? = some d ∧ d.stage.isDone = false ∧ roleCalls before = calls ∧ t.state = s

@[simp] theorem roleCalls_role (es : List (Event σ α)) (call : RoleCall) :
    roleCalls (es ++ [.role call]) = roleCalls es ++ [call] := List.filterMap_append

@[simp] theorem roleCalls_arrive (es : List (Event σ α)) (r : Request) (carryOut : σ → α × σ) :
    roleCalls (es ++ [.arrive r carryOut]) = roleCalls es :=
  List.filterMap_append.trans (List.append_nil _)

@[simp] theorem roleCalls_go (es : List (Event σ α)) (n : Nat) :
    roleCalls (es ++ [.go n]) = roleCalls es := List.filterMap_append.trans (List.append_nil _)

@[simp] theorem arrivals_role (es : List (Event σ α)) (call : RoleCall) :
    arrivals (es ++ [.role call]) = arrivals es := List.filterMap_append.trans (List.append_nil _)

@[simp] theorem arrivals_arrive (es : List (Event σ α)) (r : Request) (carryOut : σ → α × σ) :
    arrivals (es ++ [.arrive r carryOut]) = arrivals es ++ [(r, carryOut)] := List.filterMap_append

@[simp] theorem arrivals_go (es : List (Event σ α)) (n : Nat) :
    arrivals (es ++ [.go n]) = arrivals es := List.filterMap_append.trans (List.append_nil _)

theorem UnderWay.concat (h : UnderWay transport j events n calls s) (e : Event σ α) :
    UnderWay transport j (events ++ [e]) n calls s := by
  obtain ⟨before, after, t, d, rfl, hrest⟩ := h
  exact ⟨before, after ++ [e], t, d, List.append_assoc before after [e], hrest⟩

theorem UnderWay.isPrefix (h : UnderWay transport j events n calls s) : calls <+: roleCalls events := by
  obtain ⟨before, after, t, d, rfl, -, -, -, rfl, -⟩ := h
  rw [roleCalls, roleCalls, List.filterMap_append]
  exact List.prefix_append _ _

theorem underWay_now (hrun : j.run? transport events = some t) (hd : t.dispatches[n]? = some d)
    (hdone : d.stage.isDone = false) (e : Event σ α) :
    UnderWay transport j (events ++ [e]) n (roleCalls events) t.state :=
  ⟨events, [e], t, d, rfl, hrun, hd, hdone, rfl, rfl⟩

/-! ## Every course -/

/-- What is known of a node after a course of events. -/
structure Accounted (transport : Transport σ) (c : ClusterSettings) (x : σ)
    (events : List (Event σ α)) (t : Junction σ α) : Prop where
  membership : t.membership = (roleCalls events).foldl Membership.heed (.ofSettings c)
  asked : t.dispatches.map (fun d => (d.request, d.carryOut)) = arrivals events
  state : t.state = (t.deeds.map Prod.snd).foldl (Deed.effect transport) x
  /-- Nothing is done for a dispatch before it comes. -/
  numbered : ∀ deed ∈ t.deeds, deed.1 < t.dispatches.length
  account : ∀ (n : Nat) (d : Dispatch σ α), t.dispatches[n]? = some d →
    Account transport c (UnderWay transport (start c x) events n) d.request d.carryOut (t.deedsOf n)
      d.stage

namespace Accounted

theorem start (transport : Transport σ) (c : ClusterSettings) (x : σ) :
    Accounted transport c x [] (Junction.start c x : Junction σ α) :=
  ⟨rfl, rfl, rfl, fun _ hdeed => absurd hdeed List.not_mem_nil, fun _ _ hd => nomatch hd⟩

theorem deedsOf_length (h : Accounted transport c x events t) : t.deedsOf t.dispatches.length = [] := by
  unfold deedsOf
  rw [List.filter_eq_nil_iff.mpr]
  · rfl
  · intro deed hdeed
    have hlt := h.numbered deed hdeed
    simp only [decide_eq_true_eq]
    omega

/-- What is known of a dispatch is still known after another event. -/
theorem kept (h : Accounted transport c x events t) (e : Event σ α) (hd : t.dispatches[n]? = some d) :
    Account transport c (UnderWay transport (Junction.start c x) (events ++ [e]) n) d.request
      d.carryOut (t.deedsOf n) d.stage :=
  (h.account n d hd).mono fun _ _ hmoment => hmoment.concat e

theorem role (h : Accounted transport c x events t) (call : RoleCall) :
    Accounted transport c x (events ++ [.role call])
      { t with membership := t.membership.heed call } := by
  refine ⟨?_, ?_, h.state, h.numbered, fun n d hd => h.kept _ hd⟩
  · rw [roleCalls_role, List.foldl_append, ← h.membership]
    rfl
  · rw [arrivals_role]
    exact h.asked

theorem arrive (h : Accounted transport c x events t) (r : Request) (carryOut : σ → α × σ) :
    Accounted transport c x (events ++ [.arrive r carryOut])
      { t with dispatches := t.dispatches ++ [⟨r, carryOut, .arrived⟩] } := by
  refine ⟨?_, ?_, h.state, ?_, ?_⟩
  · rw [roleCalls_arrive]
    exact h.membership
  · rw [arrivals_arrive, List.map_append, h.asked]
    rfl
  · intro deed hdeed
    rw [List.length_append]
    exact Nat.lt_succ_of_lt (h.numbered deed hdeed)
  · intro k d hd
    rw [List.getElem?_append] at hd
    split at hd
    next => exact h.kept _ hd
    next hlast =>
      rw [List.getElem?_singleton] at hd
      split at hd
      next hzero =>
        obtain rfl := Option.some.inj hd
        obtain rfl : k = t.dispatches.length := by omega
        exact h.deedsOf_length
      next => cases hd

theorem go (h : Accounted transport c x events t)
    (hrun : (Junction.start c x).run? transport events = some t) (hd : t.dispatches[n]? = some d)
    (hstep : d.Step transport t.membership t.state stage s' new) :
    Accounted transport c x (events ++ [.go n])
      { t with
        state := s'
        dispatches := t.dispatches.set n { d with stage }
        deeds := t.deeds ++ new.map (n, ·) } := by
  have hlt : n < t.dispatches.length := (List.getElem?_eq_some_iff.mp hd).1
  have hdeeds : ∀ k, ((t.deeds ++ new.map (n, ·)).filter (·.1 = k)).map Prod.snd =
      t.deedsOf k ++ if n = k then new else [] := by
    intro k
    rw [List.filter_append, List.map_append, filter_deeds]
    rfl
  refine ⟨?_, ?_, ?_, ?_, ?_⟩
  · rw [roleCalls_go]
    exact h.membership
  · have hn : (t.dispatches.map fun d => (d.request, d.carryOut))[n]? =
        some (d.request, d.carryOut) := by
      rw [List.getElem?_map, hd]
      rfl
    obtain ⟨hn, hsame⟩ := List.getElem?_eq_some_iff.mp hn
    rw [arrivals_go, ← h.asked, List.map_set, ← hsame]
    exact List.set_getElem_self hn
  · have hsnd : (new.map (n, ·)).map Prod.snd = new := by
      rw [List.map_map]
      exact List.map_id _
    rw [List.map_append, List.foldl_append, ← h.state, hsnd]
    exact hstep.effect
  · intro deed hdeed
    rw [List.length_set]
    rcases List.mem_append.mp hdeed with hold | hnew
    · exact h.numbered deed hold
    · obtain ⟨_, -, rfl⟩ := List.mem_map.mp hnew
      exact hlt
  · intro k d' hd'
    show Account transport c _ _ _ (((t.deeds ++ new.map (n, ·)).filter (·.1 = k)).map Prod.snd) _
    rw [hdeeds k]
    -- Its own step goes on with a dispatch's account at this moment, another's leaves it as it is.
    by_cases hk : n = k
    · obtain ⟨hrole, hurl⟩ := Membership.foldl_heed_ofSettings c (roleCalls events)
      rw [← h.membership] at hrole hurl
      have hclustered : t.membership.isClustered = c.enabled := by
        rw [h.membership, Membership.isClustered_foldl_heed, Membership.isClustered_ofSettings]
      have hnow : UnderWay transport (Junction.start c x) (events ++ [.go n]) n (roleCalls events)
          t.state := underWay_now hrun hd hstep.not_done (.go n)
      subst hk
      rw [List.getElem?_set_self hlt] at hd'
      obtain rfl := Option.some.inj hd'
      rw [if_pos rfl]
      exact (h.account n d hd).advance (fun calls y hy => ⟨hy.concat _, hy.isPrefix⟩) hnow
        hclustered hrole hurl hstep
    · rw [if_neg hk, List.append_nil]
      rw [List.getElem?_set_ne hk] at hd'
      exact h.kept _ hd'

theorem run (h : (Junction.start c x).run? transport events = some t) :
    Accounted transport c x events t := by
  refine course?_induction (P := Accounted transport c x) (start transport c x) ?_ h
  intro es u e v hes hu he
  rcases next?_cases he with ⟨call, rfl, rfl⟩ | ⟨r, carryOut, rfl, rfl⟩ |
    ⟨n, d, stage, state, new, rfl, hd, hstep, rfl⟩
  · exact hu.role call
  · exact hu.arrive r carryOut
  · exact hu.go hes hd (Dispatch.step_of_advance? hstep)

end Accounted

/-! ## A dispatch that nothing comes between -/

/-- The last dispatch goes on. -/
theorem go_last {ds : List (Dispatch σ α)} (hds : t.dispatches = ds ++ [d])
    (hstep : d.advance? transport t.membership t.state = some (stage, s', new)) :
    t.next? transport (.go ds.length) = some { t with
      state := s'
      dispatches := ds ++ [{ d with stage }]
      deeds := t.deeds ++ new.map (ds.length, ·) } := by
  have hd : t.dispatches[ds.length]? = some d := by
    rw [hds, List.getElem?_append_right (Nat.le_refl _), Nat.sub_self]
    rfl
  have hset : t.dispatches.set ds.length { d with stage } = ds ++ [{ d with stage }] := by
    rw [hds, List.set_append_right _ _ (Nat.le_refl _), Nat.sub_self]
    rfl
  rw [next?_go hd hstep, hset]

/-- The last dispatch goes on until it is done, in as many steps as it has left at most. -/
theorem run?_last (transport : Transport σ) {ds : List (Dispatch σ α)} (bound : Nat)
    (hds : t.dispatches = ds ++ [d]) (hbound : d.stage.stepsLeft ≤ bound) : ∃ k u d', k ≤ bound ∧
      t.run? transport (List.replicate k (.go ds.length)) = some u ∧ u.dispatches = ds ++ [d'] ∧
      d'.stage = .done (d.finish transport t.membership t.state).1 ∧
      u.state = (d.finish transport t.membership t.state).2 := by
  -- On the bound, since steps differ in how far they bring a dispatch; `finish` carries the answer.
  induction bound generalizing t d with
  | zero =>
    cases hdone : d.stage.isDone with
    | true => exact ⟨0, t, d, Nat.le_refl 0, rfl, hds, Dispatch.finish_of_done hdone _ _ _⟩
    | false =>
      obtain ⟨stage, s', new, hstep⟩ := Dispatch.exists_advance? transport t.membership t.state hdone
      have hless := (Dispatch.step_of_advance? hstep).stepsLeft_lt
      omega
  | succ bound ih =>
    cases hdone : d.stage.isDone with
    | true => exact ⟨0, t, d, Nat.zero_le _, rfl, hds, Dispatch.finish_of_done hdone _ _ _⟩
    | false =>
      obtain ⟨stage, s', new, hstep⟩ := Dispatch.exists_advance? transport t.membership t.state hdone
      have hnext := go_last hds hstep
      have hless := (Dispatch.step_of_advance? hstep).stepsLeft_lt
      obtain ⟨k, u, d', hk, hrun, hu, hstage, hstate⟩ := ih (t := { t with
        state := s'
        dispatches := ds ++ [{ d with stage }]
        deeds := t.deeds ++ new.map (ds.length, ·) }) rfl (show stage.stepsLeft ≤ bound by omega)
      rw [(Dispatch.step_of_advance? hstep).finish] at hstage hstate
      refine ⟨k + 1, u, d', Nat.succ_le_succ hk, ?_, hu, hstage, hstate⟩
      rw [List.replicate_succ, run?, course?, hnext]
      exact hrun

/-- A dispatch whose steps follow on its request, with nothing between, does what `dispatch` does. -/
theorem run?_dispatch (transport : Transport σ) (t : Junction σ α) (r : Request)
    (carryOut : σ → α × σ) : ∃ k u d, k ≤ 4 ∧
      t.run? transport (.arrive r carryOut :: List.replicate k (.go t.dispatches.length)) = some u ∧
      u.dispatches[t.dispatches.length]? = some d ∧
      d.stage = .done (dispatch transport carryOut t.membership r t.state).1 ∧
      u.state = (dispatch transport carryOut t.membership r t.state).2 := by
  obtain ⟨k, u, d, hk, hrun, hu, hstage, hstate⟩ := run?_last transport 4
    (t := { t with dispatches := t.dispatches ++ [⟨r, carryOut, .arrived⟩] }) rfl (Nat.le_refl 4)
  refine ⟨k, u, d, hk, hrun, ?_, hstage, hstate⟩
  rw [hu, List.getElem?_append_right (Nat.le_refl _), Nat.sub_self]
  rfl

/-! ## The node that dispatches -/

/-- What holds of a node after a course of events: of the requests that it was given, of what it has
done for each, and of what it would do for another one. -/
structure Dispatched (transport : Transport σ) (c : ClusterSettings) (x : σ)
    (events : List (Event σ α)) (t : Junction σ α) : Prop where
  /-- No call moves a node that is not clustered. -/
  unmoved : c.enabled = false → t.membership = .ofSettings c
  asked : t.dispatches.map (fun d => (d.request, d.carryOut)) = arrivals events
  /-- The deeds are all that was done. -/
  state : t.state = (t.deeds.map Prod.snd).foldl (Deed.effect transport) x
  /-- For a dispatch that is not done nothing has been done, and it can go on. -/
  pending : ∀ (n : Nat) (d : Dispatch σ α), t.dispatches[n]? = some d → d.stage.isDone = false →
    t.deedsOf n = [] ∧ ∃ u d', t.next? transport (.go n) = some u ∧ u.dispatches[n]? = some d' ∧
      d'.stage.stepsLeft < d.stage.stepsLeft
  /-- One that is done did one thing, by what the node had been told when it was asked. -/
  done : ∀ (n : Nat) (d : Dispatch σ α) (reply : Reply α), t.dispatches[n]? = some d →
    d.stage = .done reply →
    ∃ decided y looked z acted s, UnderWay transport (start c x) events n decided y ∧
      UnderWay transport (start c x) events n looked z ∧
      UnderWay transport (start c x) events n acted s ∧ decided <+: looked ∧ looked <+: acted ∧
      Did transport c decided looked d.request d.carryOut s reply (t.deedsOf n)
  /-- Where nothing comes between its steps, it does what `dispatch` does. -/
  inOnePiece : ∀ (r : Request) (carryOut : σ → α × σ), ∃ k u d, k ≤ 4 ∧
    t.run? transport (.arrive r carryOut :: List.replicate k (.go t.dispatches.length)) = some u ∧
    u.dispatches[t.dispatches.length]? = some d ∧
    d.stage = .done (dispatch transport carryOut t.membership r t.state).1 ∧
    u.state = (dispatch transport carryOut t.membership r t.state).2
  /-- And that is one thing too, by what the node has been told. -/
  atOnce : ∀ (r : Request) (carryOut : σ → α × σ), ∃ deeds,
    Did transport c (roleCalls events) (roleCalls events) r carryOut t.state
      (dispatch transport carryOut t.membership r t.state).1 deeds ∧
    (dispatch transport carryOut t.membership r t.state).2 = deeds.foldl (Deed.effect transport) t.state
  /-- An address that was called had been given to the node since it last took over, as of the moment at
  which the dispatch looked at the address; what the node is told while a call is under way changes
  nothing about that call. -/
  forgotten : ∀ (n : Nat) (url : String) (r : Request), .called url r ∈ t.deedsOf n →
    ∃ looked z, UnderWay transport (start c x) events n looked z ∧
      ∀ before after, looked = before ++ .becomeCoordinator :: after → .stepDown (some url) ∈ after

/-- What was done for a dispatch was done in its last step. -/
theorem Accounted.done_of_mem {deed : Deed σ α} (h : Accounted transport c x events t)
    (hdeed : deed ∈ t.deedsOf n) : ∃ d reply, t.dispatches[n]? = some d ∧ d.stage = .done reply := by
  obtain ⟨⟨k, deed⟩, hmem, rfl⟩ := List.mem_map.mp hdeed
  obtain ⟨hnoted, hk⟩ := List.mem_filter.mp hmem
  obtain rfl : k = n := of_decide_eq_true hk
  have hlt : k < t.dispatches.length := h.numbered (k, deed) hnoted
  obtain ⟨d, hd⟩ : ∃ d, t.dispatches[k]? = some d := ⟨_, List.getElem?_eq_getElem hlt⟩
  cases hstage : d.stage with
  | done reply => exact ⟨d, reply, hd, hstage⟩
  | _ =>
    have hnone : t.deedsOf k = [] := (h.account k d hd).deeds_of_not_done (by rw [hstage]; rfl)
    rw [hnone] at hdeed
    cases hdeed

/-- **A dispatch does one thing.** Whatever a node is given to dispatch and whatever it is told of its
role meanwhile, each request is carried out here once, or sent once, as it came, to where the
coordinator is, or refused with nothing done; the role and the address are those of the last call that
the node had got when it was asked. -/
theorem dispatches_do_one_thing (h : (start c x).run? transport events = some t) :
    Dispatched transport c x events t := by
  have hall : Accounted transport c x events t := Accounted.run h
  obtain ⟨hrole, hurl⟩ := Membership.foldl_heed_ofSettings c (roleCalls events)
  rw [← hall.membership] at hrole hurl
  refine ⟨?_, hall.asked, hall.state, ?_, ?_, run?_dispatch transport t,
    fun r carryOut => dispatch_did carryOut r t.state hrole hurl, ?_⟩
  · intro hdisabled
    rw [hall.membership, Membership.foldl_heed_of_alone]
    rw [Membership.isClustered_ofSettings, hdisabled]
  · intro n d hd hdone
    obtain ⟨stage, s', new, hstep⟩ := Dispatch.exists_advance? transport t.membership t.state hdone
    exact ⟨(hall.account n d hd).deeds_of_not_done hdone, _, { d with stage }, next?_go hd hstep,
      List.getElem?_set_self (List.getElem?_eq_some_iff.mp hd).1,
      (Dispatch.step_of_advance? hstep).stepsLeft_lt⟩
  · intro n d reply hd hstage
    have haccount := hall.account n d hd
    rw [hstage] at haccount
    exact haccount
  · intro n url r hcalled
    obtain ⟨d, reply, hd, hstage⟩ := hall.done_of_mem hcalled
    have haccount := hall.account n d hd
    rw [hstage] at haccount
    obtain ⟨decided, y, looked, z, acted, s, -, hlooked, -, -, -, hdid⟩ := haccount
    refine ⟨looked, z, hlooked, ?_⟩
    rintro before after rfl
    generalize t.deedsOf n = deeds at hdid hcalled
    cases hdid with
    | here => cases hcalled with | tail _ hnil => cases hnil
    | marked | lost => cases hcalled
    | sentOn hfollower hmark hknown =>
      cases List.mem_singleton.mp hcalled
      exact ClusterSettings.address_of_takeover hknown

/-- A follower of a coordinator at "http://a". -/
def following : Junction (List String) Nat :=
  start ⟨true, .follower, some "http://a", 10000⟩ []

/-- Keeps a record of the addresses that were called. -/
def recording : Transport (List String) := fun url _ called => (.ok ⟨200, [], []⟩, called ++ [url])

/-- Two requests, and what the node is told while they are on their way: the first one asks for the
address after the node was given another one, and calls it after the node took over; the second one is
to be carried out here when the node steps down. -/
def retold : List (Event (List String) Nat) :=
  let r : Request := ⟨"GET", ⟨"/input-ports/p1", none⟩, [], []⟩
  [.arrive r (fun called => (called.length, called)), .go 0, .go 0,
    .role (.stepDown (some "http://b")), .go 0, .role .becomeCoordinator, .go 0,
    .arrive r (fun called => (called.length, called)), .go 1, .go 1,
    .role (.stepDown (some "http://c")), .go 1]

/-- The first request goes to the address that was given last before it asked, and the second one
nowhere. -/
theorem dispatches_do_one_thing_retold :
    ∃ t, following.run? recording retold = some t ∧
      t.deeds.map (fun deed => (deed.1, deed.2.url?)) = [(0, some "http://b"), (1, none)] ∧
      Dispatched recording ⟨true, .follower, some "http://a", 10000⟩ [] retold t := by
  have hcourse : (following.run? recording retold).map
      (fun t => t.deeds.map fun deed => (deed.1, deed.2.url?)) =
        some [(0, some "http://b"), (1, none)] := by decide +kernel
  obtain ⟨t, ht, hdeeds⟩ := Option.map_eq_some_iff.mp hcourse
  exact ⟨t, ht, hdeeds, dispatches_do_one_thing ht⟩

end Junction

end InletRegistry.Routing
