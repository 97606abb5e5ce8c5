import InletRegistry.Node.Reception
import InletRegistry.Proofs.Node.Assess
import InletRegistry.Proofs.Registry.Prompt
import Mathlib.Data.List.InsertIdx

/-!
# A reception at rest

What an event can do to a node that carries its requests out itself (`next_cases`, `take_eq`), and
what holds of it between any two events (`Proper`).

Two things go along with every event. A call that waits for nothing any more may be left out of the
list (`strike`), and a past may be put in front of the trail (`since`).
-/

namespace InletRegistry.Reception

open InletRegistry.Http InletRegistry.Routing InletRegistry.Registry InletRegistry.Locks
open InletRegistry.LockTable

variable {t u : Reception} {e : Event} {now i a k : Nat} {r : Request} {c d : Claim}
  {past : List Audit.Entry}

/-! ## What an event can do -/

/-- What a request comes to at the service of a node: an answer, an outcome or a ticket. -/
def reaction (n : Node) (now : Nat) (r : Request) : Except Response (Except Nat Registry.Outcome) × Service :=
  match n.assess now r with
  | .error answer => (.error answer, n.skipId.service)
  | .ok task =>
    let (result, service) := n.skipId.service.start? now task
    (.ok result, service)

theorem reaction_of_error {n : Node} {answer : Response} (h : n.assess now r = .error answer) :
    reaction n now r = (.error answer, n.skipId.service) := by
  simp only [reaction, h]

theorem reaction_of_task {n : Node} {task : Registry.Task} (h : n.assess now r = .ok task) :
    reaction n now r =
      (.ok (n.skipId.service.start? now task).1, (n.skipId.service.start? now task).2) := by
  simp only [reaction, h]

/-- The call that it becomes. -/
def callOf (n : Node) (r : Request) : Except Response (Except Nat Registry.Outcome) → Call
  | .error answer => .answered ((n.visitOf r).conclude answer)
  | .ok (.ok outcome) => .answered ((n.visitOf r).conclude (n.respond outcome))
  | .ok (.error ticket) => .waiting ticket (n.visitOf r)

theorem take_eq (hlocal : t.node.membership.mustForward = false) (now : Nat) (r : Request) :
    t.take now r =
      { t.onService fun _ => (reaction t.node now r).2 with
        calls := t.calls ++ [callOf t.node r (reaction t.node now r).1] } := by
  have hforward : t.node.skipId.membership.mustForward = false := hlocal
  unfold take reaction
  rw [Node.receive_eq]
  cases t.node.assess now r with
  | error answer => rfl
  | ok task =>
    simp only [Node.undertake, hforward, Bool.false_eq_true, ↓reduceIte, Node.start]
    rcases t.node.skipId.service.start? now task with ⟨⟨ticket⟩ | ⟨outcome⟩, service⟩ <;> rfl

theorem next_cases (he : t.next? e = some u) :
    (∃ c, t.locks.handed? = some c ∧ e = .resume c.ticket ∧
      u = t.proceed c.ticket (·.resume c.ticket)) ∨
    ((t.locks.handed? = none ∨ e.isCancel = true) ∧ t.turn? e = some u) := by
  unfold next? at he
  split at he
  next c hc =>
    by_cases heq : e = .resume c.ticket
    · rw [if_pos heq] at he
      exact Or.inl ⟨c, hc, heq, (Option.some.inj he).symm⟩
    · rw [if_neg heq] at he
      by_cases hcancel : e.isCancel = true
      · rw [if_pos hcancel] at he
        exact Or.inr ⟨Or.inr hcancel, he⟩
      · rw [if_neg hcancel] at he
        cases he
  next hnone => exact Or.inr ⟨Or.inl hnone, he⟩

/-- An event other than that somebody goes on, at a node that does not have to come to rest first. -/
theorem next?_of_turn (hquiet : t.locks.handed? = none ∨ e.isCancel = true) (he : t.turn? e = some u) :
    t.next? e = some u := by
  unfold next?
  cases hc : t.locks.handed? with
  | none => exact he
  | some c =>
    have hcancel : e.isCancel = true := hquiet.resolve_left (by simp [hc])
    have hne : e ≠ .resume c.ticket := by
      rintro rfl
      cases hcancel
    simp only [if_neg hne, if_pos hcancel, he]

/-- A call once the order of a ticket has an outcome, if it has one. -/
def endedBy (n : Node) (k : Nat) : Option Registry.Outcome → Call → Call
  | some outcome => .ended k fun v => .answered (v.conclude (n.respond outcome))
  | none => id

theorem proceed_eq (t : Reception) (k : Nat) (action : Service → Option Registry.Outcome × Service) :
    t.proceed k action =
      { t.onService fun _ => (action t.service).2 with
        calls := t.calls.map (endedBy t.node k (action t.service).1) } := by
  have hproceed : t.node.proceed action =
      ((action t.service).1, { t.node with service := (action t.service).2 }) := rfl
  unfold proceed
  rw [hproceed]
  cases (action t.service).1 with
  | some outcome => rfl
  | none =>
    simp only [endedBy, List.map_id]
    rfl

theorem ticket?_ended {ending : Visit → Call} {call : Call} {j : Nat}
    (hend : ∀ v, (ending v).ticket? = none) (h : (call.ended k ending).ticket? = some j) :
    call.ticket? = some j ∧ j ≠ k := by
  cases call with
  | waiting n v =>
    by_cases hn : n = k
    · simp only [Call.ended, hn, ↓reduceIte, hend] at h
      cases h
    · simp only [Call.ended, hn, ↓reduceIte, Call.ticket?] at h
      obtain rfl := Option.some.inj h
      exact ⟨rfl, hn⟩
  | _ => cases h

theorem ticket?_endedBy {n : Node} {outcome : Option Registry.Outcome} {call : Call} {j : Nat}
    (h : (endedBy n k outcome call).ticket? = some j) : call.ticket? = some j := by
  cases outcome with
  | some outcome => exact (ticket?_ended (fun _ => rfl) h).1
  | none => exact h

/-! ## Between two events -/

/-- What holds of a node that carries its requests out itself. -/
structure Proper (t : Reception) : Prop where
  executes : t.node.membership.mustForward = false
  prompt : t.service.Prompt
  /-- Calls wait under tickets that have been given out. -/
  given : ∀ call ∈ t.calls, ∀ k, call.ticket? = some k → k < t.locks.fresh

namespace Proper

/-- Passing an identifier over changes nothing that matters to the locks. -/
theorem skipId (h : t.Proper) : t.node.skipId.service.Prompt := ⟨h.prompt.locks, h.prompt.given⟩

/-- The action by which an order goes on or is given up keeps a reception proper. -/
theorem proceed (h : t.Proper) {action : Service → Option Registry.Outcome × Service}
    (hp : (action t.service).2.Prompt) (hle : t.locks.fresh ≤ (action t.service).2.locks.fresh) :
    (t.proceed k action).Proper := by
  rw [proceed_eq]
  refine ⟨h.executes, hp, ?_⟩
  intro call' hcall' j hj
  obtain ⟨call, hcall, rfl⟩ := List.mem_map.mp hcall'
  exact Nat.lt_of_lt_of_le (h.given call hcall j (ticket?_endedBy hj)) hle

theorem resume (h : t.Proper) (hc : t.locks.handed? = some c) :
    (t.proceed c.ticket (·.resume c.ticket)).Proper := by
  obtain ⟨hclaim, hhanded⟩ := claim?_of_handed? h.prompt.locks.sound hc
  cases ho : t.service.waiting.lookup c.ticket with
  | some o =>
    have hresume := Service.resume_of_order h.prompt hclaim hhanded ho
    refine h.proceed ?_ ?_ <;> rw [hresume]
    · exact (h.prompt.carry o).lift_suspended hclaim (by rw [hhanded]; rfl)
    · exact Nat.le_of_eq lift_fresh.symm
  | none =>
    have hresume := Service.resume_of_none ho
    have hlocks := (resume_of_handed hclaim hhanded).1
    have hle : t.service.locks.fresh ≤ (t.service.locks.resume c.ticket).fresh :=
      Nat.le_of_eq (by rw [hlocks]; rfl)
    refine h.proceed ?_ ?_ <;> rw [hresume]
    · exact h.prompt.withLocks (h.prompt.locks.resume hclaim hhanded) hle
    · exact hle

theorem expire (h : t.Proper) (hc : t.locks.claim? k = some c) (hwaits : c.stage.waits = true) :
    (t.proceed k (·.expire k)).Proper := by
  have hexpire := Service.expire_eq h.prompt hc hwaits
  refine h.proceed ?_ ?_ <;> rw [hexpire]
  · exact h.prompt.lift hc hwaits
  · exact Nat.le_of_eq lift_fresh.symm

/-- A call that comes to wait does so under the next ticket. -/
theorem ticket_callOf (h : t.Proper) (hk : (callOf t.node r (reaction t.node now r).1).ticket? = some k) :
    k = t.locks.fresh + 1 ∧ k < (reaction t.node now r).2.locks.fresh := by
  cases htask : t.node.assess now r with
  | error answer =>
    rw [reaction_of_error htask] at hk
    cases hk
  | ok task =>
    rw [reaction_of_task htask] at hk ⊢
    cases hstart : t.node.skipId.service.start? now task with
    | mk result service =>
      rw [hstart] at hk
      cases result with
      | ok outcome => cases hk
      | error ticket =>
        obtain rfl := Option.some.inj hk
        obtain ⟨rfl, -, -, -, hlift⟩ := Service.start?_waiting h.skipId hstart
        have hfresh : (service.locks.lift (t.node.skipId.service.locks.fresh + 1)).fresh =
            t.locks.fresh + 2 := congrArg (·.locks.fresh) hlift
        rw [lift_fresh] at hfresh
        refine ⟨rfl, ?_⟩
        show t.locks.fresh + 1 < service.locks.fresh
        omega

theorem take (h : t.Proper) (now : Nat) (r : Request) : (t.take now r).Proper := by
  have hreaction : (reaction t.node now r).2.Prompt ∧
      t.locks.fresh ≤ (reaction t.node now r).2.locks.fresh := by
    cases htask : t.node.assess now r with
    | error answer =>
      rw [reaction_of_error htask]
      exact ⟨h.skipId, Nat.le_refl _⟩
    | ok task =>
      rw [reaction_of_task htask]
      exact h.skipId.start? now task
  rw [take_eq h.executes]
  refine ⟨h.executes, hreaction.1, ?_⟩
  intro call hcall k hk
  rcases List.mem_append.mp hcall with hold | hlast
  · exact Nat.lt_of_lt_of_le (h.given call hold k hk) hreaction.2
  · rw [List.mem_singleton.mp hlast] at hk
    exact (h.ticket_callOf hk).2

/-- Other locks under the same calls, if no ticket is taken back. -/
theorem withLocks (h : t.Proper) {locks : LockTable} (hlocks : locks.Prompt)
    (hle : t.locks.fresh ≤ locks.fresh) : (t.onService fun s => { s with locks }).Proper := by
  refine ⟨h.executes, h.prompt.withLocks hlocks hle, ?_⟩
  intro call hcall j hj
  exact Nat.lt_of_lt_of_le (h.given call hcall j hj) hle

theorem cancel (h : t.Proper) (hc : t.locks.claim? k = some c)
    (hsuspended : c.stage.isSuspended = true) :
    ({ t.onService (·.cancel k) with calls := t.calls.map (.ended k fun _ => .dropped) } :
      Reception).Proper := by
  have hfresh : (t.service.cancel k).locks.fresh = t.locks.fresh :=
    (h.prompt.locks.cancel_claims hc hsuspended).2
  refine ⟨h.executes, h.prompt.cancel hc hsuspended, ?_⟩
  intro call' hcall' j hj
  obtain ⟨call, hcall, rfl⟩ := List.mem_map.mp hcall'
  have hlt := h.given call hcall j (ticket?_ended (fun _ => rfl) hj).1
  exact Nat.lt_of_lt_of_eq hlt hfresh.symm

theorem release (h : t.Proper) (hquiet : t.locks.handed? = none) (hc : t.locks.claim? k = some c)
    (hheld : c.stage = .held) :
    (t.onService fun s => { s with locks := s.locks.release k }).Proper := by
  have hrelease : t.service.locks.release k = t.locks.lift k :=
    release_eq_lift h.prompt.locks.sound h.prompt.locks.attended hc hheld
  refine h.withLocks ?_ ?_
  · rw [hrelease]
    exact h.prompt.locks.lift_owner hc (by rw [hheld]; rfl) fun d hd hstage =>
      absurd hstage (ne_handed_of_none hquiet hd)
  · rw [hrelease]
    exact Nat.le_of_eq lift_fresh.symm

theorem pass (h : t.Proper) (identifiers tickets : Nat) :
    (t.onService (·.passOver identifiers tickets)).Proper := by
  refine ⟨h.executes, ⟨h.prompt.locks.pass tickets, ?_⟩, ?_⟩
  · exact fun w hw => Nat.lt_add_right tickets (h.prompt.given w hw)
  · exact fun call hcall j hj => Nat.lt_add_right tickets (h.given call hcall j hj)

/-- Every event keeps a reception proper. -/
theorem next (h : t.Proper) (he : t.next? e = some u) : u.Proper := by
  rcases next_cases he with ⟨c, hc, -, rfl⟩ | ⟨hquiet, he⟩
  · exact h.resume hc
  · cases e with
    | request now r =>
      obtain rfl := Option.some.inj he
      exact h.take now r
    | resume k => cases he
    | expire k =>
      obtain ⟨⟨c, hc, hwaits⟩, rfl⟩ := map_claimAt?_eq_some.mp he
      exact h.expire hc hwaits
    | cancel k =>
      obtain ⟨⟨c, hc, hsuspended⟩, rfl⟩ := map_claimAt?_eq_some.mp he
      exact h.cancel hc hsuspended
    | hold now id patience =>
      obtain rfl := Option.some.inj he
      exact h.withLocks (h.prompt.locks.acquire now id patience)
        (fresh_le_acquire t.locks now id patience)
    | release k =>
      obtain ⟨⟨c, hc, hheld⟩, rfl⟩ := map_claimAt?_eq_some.mp he
      exact h.release (hquiet.resolve_right nofun) hc (of_decide_eq_true hheld)
    | pass identifiers tickets =>
      obtain rfl := Option.some.inj he
      exact h.pass identifiers tickets

/-- Every course of events keeps a reception proper. -/
theorem run (h : t.Proper) {events : List Event} (hrun : t.run? events = some u) : u.Proper :=
  course?_invariant h (fun _ _ _ ht he => ht.next he) hrun

end Proper

/-! ## Without a call -/

/-- The reception with one call less on its list. -/
def strike (i : Nat) (t : Reception) : Reception := { t with calls := t.calls.eraseIdx i }

theorem Proper.strike (h : t.Proper) (i : Nat) : (t.strike i).Proper :=
  ⟨h.executes, h.prompt, fun call hcall => h.given call (List.mem_of_mem_eraseIdx hcall)⟩

theorem take_strike (hi : i < t.calls.length) (now : Nat) (r : Request) :
    (t.strike i).take now r = (t.take now r).strike i := by
  have hnode : (t.strike i).node = t.node := rfl
  unfold take
  rw [hnode]
  rcases t.node.receive (isolated Unit) now r () with ⟨visit, ⟨response⟩ | ⟨ticket⟩, node, _⟩ <;>
    simp only [strike, List.eraseIdx_append_of_lt_length hi]

theorem proceed_strike (action : Service → Option Registry.Outcome × Service) :
    (t.strike i).proceed k action = (t.proceed k action).strike i := by
  have hnode : (t.strike i).node = t.node := rfl
  unfold proceed
  rw [hnode]
  rcases t.node.proceed action with ⟨_ | outcome, node⟩ <;>
    simp only [strike, List.eraseIdx_map]

theorem turn?_strike (hi : i < t.calls.length) : (t.strike i).turn? e = (t.turn? e).map (strike i) := by
  cases e with
  | request now r => exact congrArg some (take_strike hi now r)
  | expire k =>
    simp only [turn?, proceed_strike, Option.map_map]
    rfl
  | cancel k =>
    simp only [turn?, Option.map_map]
    show Option.map _ (t.locks.claimAt? k Stage.isSuspended) = _
    congr 1
    funext _
    simp only [strike, Function.comp, List.eraseIdx_map]
    rfl
  | release k =>
    simp only [turn?, Option.map_map]
    rfl
  | resume | hold | pass => rfl

theorem next?_strike (hi : i < t.calls.length) : (t.strike i).next? e = (t.next? e).map (strike i) := by
  have hlocks : (t.strike i).locks = t.locks := rfl
  unfold next?
  rw [hlocks]
  cases t.locks.handed? with
  | none => exact turn?_strike hi
  | some c =>
    simp only [proceed_strike, turn?_strike hi]
    repeat' split
    all_goals rfl

theorem length_proceed (t : Reception) (k : Nat) (action : Service → Option Registry.Outcome × Service) :
    (t.proceed k action).calls.length = t.calls.length := by
  unfold proceed
  split
  · exact List.length_map _
  · rfl

theorem length_take (t : Reception) (now : Nat) (r : Request) :
    (t.take now r).calls.length = t.calls.length + 1 := by
  unfold take
  split <;> exact List.length_append

/-- No call is taken off the list, and a request puts one on it. -/
theorem length_next (he : t.next? e = some u) :
    u.calls.length = t.calls.length + if e.isRequest then 1 else 0 := by
  rcases next_cases he with ⟨c, -, rfl, rfl⟩ | ⟨-, he⟩
  · exact length_proceed t c.ticket _
  · cases e with
    | request now r =>
      obtain rfl := Option.some.inj he
      exact length_take t now r
    | resume k => cases he
    | expire k =>
      obtain ⟨-, rfl⟩ := map_claimAt?_eq_some.mp he
      exact length_proceed t k _
    | cancel k =>
      obtain ⟨-, rfl⟩ := map_claimAt?_eq_some.mp he
      exact List.length_map _
    | hold now id patience =>
      obtain rfl := Option.some.inj he
      rfl
    | release k =>
      obtain ⟨-, rfl⟩ := map_claimAt?_eq_some.mp he
      rfl
    | pass identifiers tickets =>
      obtain rfl := Option.some.inj he
      rfl

theorem run?_strike {es : List Event} (hi : i < t.calls.length) (h : t.run? es = some u) :
    (t.strike i).run? es = some (u.strike i) := by
  induction es generalizing t with
  | nil =>
    cases h
    rfl
  | cons e es ih =>
    obtain ⟨v, hv, hrest⟩ := Option.bind_eq_some_iff.mp h
    have hnext : (t.strike i).next? e = some (v.strike i) := by rw [next?_strike hi, hv, Option.map_some]
    exact Option.bind_eq_some_iff.mpr
      ⟨v.strike i, hnext, ih (by rw [length_next hv]; exact Nat.lt_add_right _ hi) hrest⟩

/-! ## With another past -/

/-- The reception with a past in front of its trail. -/
def since (past : List Audit.Entry) (t : Reception) : Reception := t.onService (·.since past)

theorem reaction_since (n : Node) (now : Nat) (r : Request) :
    reaction { n with service := n.service.since past } now r =
      ((reaction n now r).1, (reaction n now r).2.since past) := by
  unfold reaction
  show (match n.assess now r with
    | .error answer => (Except.error answer, n.skipId.service.since past)
    | .ok task =>
      let (result, service) := (n.skipId.service.since past).start? now task
      (.ok result, service)) = _
  cases n.assess now r with
  | error answer => rfl
  | ok task =>
    simp only [Service.start?_since]

theorem take_since (hlocal : t.node.membership.mustForward = false) (now : Nat) (r : Request) :
    (t.since past).take now r = (t.take now r).since past := by
  have hlocal' : (t.since past).node.membership.mustForward = false := hlocal
  have hreaction : reaction (t.since past).node now r =
      ((reaction t.node now r).1, (reaction t.node now r).2.since past) := reaction_since t.node now r
  rw [take_eq hlocal, take_eq hlocal', hreaction]
  rfl

/-- An action on a service that commutes with a change of it commutes with the change of the
reception. -/
theorem proceed_onService {action : Service → Option Registry.Outcome × Service}
    {change : Service → Service}
    (h : action (change t.service) = ((action t.service).1, change (action t.service).2)) :
    (t.onService change).proceed k action = (t.proceed k action).onService change := by
  have hproceed : (t.onService change).node.proceed action =
      ((action t.service).1, { t.node with service := change (action t.service).2 }) := by
    show ((action (change t.service)).1, { t.node with service := (action (change t.service)).2 }) = _
    rw [h]
  have hproceed' : t.node.proceed action =
      ((action t.service).1, { t.node with service := (action t.service).2 }) := rfl
  unfold proceed
  rw [hproceed, hproceed']
  cases (action t.service).1 <;> rfl

theorem turn?_since (hlocal : t.node.membership.mustForward = false) :
    (t.since past).turn? e = (t.turn? e).map (since past) := by
  cases e with
  | request now r => exact congrArg some (take_since hlocal now r)
  | expire k =>
    have hproceed : (t.since past).proceed k (·.expire k) = (t.proceed k (·.expire k)).since past :=
      proceed_onService (Service.expire_since t.service k)
    simp only [turn?, hproceed, Option.map_map]
    rfl
  | cancel k =>
    simp only [turn?, Option.map_map]
    rfl
  | release k =>
    simp only [turn?, Option.map_map]
    rfl
  | resume | hold | pass => rfl

theorem next?_since (hlocal : t.node.membership.mustForward = false) :
    (t.since past).next? e = (t.next? e).map (since past) := by
  have hlocks : (t.since past).locks = t.locks := rfl
  unfold next?
  rw [hlocks]
  cases t.locks.handed? with
  | none => exact turn?_since hlocal
  | some c =>
    have hproceed : (t.since past).proceed c.ticket (·.resume c.ticket) =
        (t.proceed c.ticket (·.resume c.ticket)).since past :=
      proceed_onService (Service.resume_since t.service c.ticket)
    simp only [hproceed, turn?_since hlocal]
    repeat' split
    all_goals rfl

/-! ## A ticket that an event does not befall -/

theorem next_stays (h : t.Proper) (hlt : a < t.locks.fresh) (he : t.next? e = some u)
    (hother : e.ticket? ≠ some a) : Service.Stays a t.service u.service := by
  have hne : ∀ {k}, e.ticket? = some k → a ≠ k := fun hk heq => hother (heq ▸ hk)
  rcases next_cases he with ⟨d, hd, rfl, rfl⟩ | ⟨hquiet, he⟩
  · obtain ⟨hclaim, hstage⟩ := claim?_of_handed? h.prompt.locks.sound hd
    rw [proceed_eq]
    exact Service.Stays.resume h.prompt hclaim hstage (hne rfl)
  · cases e with
    | request now r =>
      obtain rfl := Option.some.inj he
      rw [take_eq h.executes]
      show Service.Stays a t.service (reaction t.node now r).2
      cases htask : t.node.assess now r with
      | error answer =>
        rw [reaction_of_error htask]
        exact ⟨Nat.le_refl _, fun _ ho => ho, Or.inl rfl⟩
      | ok task =>
        obtain ⟨hle, horder, hclaim⟩ := Service.Stays.start? h.skipId hlt now task
        rw [reaction_of_task htask]
        exact ⟨hle, horder, hclaim⟩
    | resume k => cases he
    | expire k =>
      obtain ⟨⟨d, hd, hwaits⟩, rfl⟩ := map_claimAt?_eq_some.mp he
      rw [proceed_eq]
      exact Service.Stays.expire h.prompt hd hwaits (hne rfl)
    | cancel k =>
      obtain ⟨⟨d, hd, hwaits⟩, rfl⟩ := map_claimAt?_eq_some.mp he
      exact Service.Stays.cancel h.prompt hd hwaits (hne rfl)
    | hold now id patience =>
      obtain rfl := Option.some.inj he
      exact Service.Stays.acquire h.prompt hlt id patience
    | release k =>
      obtain ⟨⟨d, hd, hheld⟩, rfl⟩ := map_claimAt?_eq_some.mp he
      exact Service.Stays.release h.prompt hd (of_decide_eq_true hheld) (hne rfl)
    | pass identifiers tickets =>
      obtain rfl := Option.some.inj he
      exact ⟨Nat.le_add_right _ _, fun _ ho => ho, Or.inl rfl⟩

/-- An event puts a new call on the list, which may wait under a new ticket, or it ends calls that
wait under the ticket of the claim that it befalls. -/
theorem calls_next (h : t.Proper) (he : t.next? e = some u) :
    (∃ call, (∀ k, call.ticket? = some k → k = t.locks.fresh + 1) ∧ u.calls = t.calls ++ [call]) ∨
      ∃ change : Call → Call, u.calls = t.calls.map change ∧
        (∀ call, (call.ticket? = none ∨ call.ticket? ≠ e.ticket?) → change call = call) ∧
        ∀ call k, (change call).ticket? = some k → call.ticket? = some k := by
  have hended : ∀ {k : Nat} {ending : Visit → Call} {call : Call},
      (call.ticket? = none ∨ call.ticket? ≠ some k) → call.ended k ending = call := by
    intro k ending call hcall
    cases call with
    | waiting j v =>
      rcases hcall with hnone | hne
      · cases hnone
      · exact if_neg fun heq => hne (congrArg some heq)
    | _ => rfl
  have hproceed : ∀ {k : Nat} {action : Service → Option Registry.Outcome × Service},
      e.ticket? = some k → u = t.proceed k action →
      ∃ change : Call → Call, u.calls = t.calls.map change ∧
        (∀ call, (call.ticket? = none ∨ call.ticket? ≠ e.ticket?) → change call = call) ∧
        ∀ call k, (change call).ticket? = some k → call.ticket? = some k := by
    intro k action hk hu
    refine ⟨endedBy t.node k (action t.service).1, by rw [hu, proceed_eq], ?_, ?_⟩
    · intro call hcall
      rw [hk] at hcall
      cases (action t.service).1 with
      | some outcome => exact hended hcall
      | none => rfl
    · exact fun call j hj => ticket?_endedBy hj
  rcases next_cases he with ⟨c, -, rfl, rfl⟩ | ⟨-, he⟩
  · exact Or.inr (hproceed rfl rfl)
  · cases e with
    | request now r =>
      obtain rfl := Option.some.inj he
      rw [take_eq h.executes]
      exact Or.inl ⟨_, fun k hk => (h.ticket_callOf hk).1, rfl⟩
    | resume k => cases he
    | expire k =>
      obtain ⟨-, rfl⟩ := map_claimAt?_eq_some.mp he
      exact Or.inr (hproceed rfl rfl)
    | cancel k =>
      obtain ⟨-, rfl⟩ := map_claimAt?_eq_some.mp he
      refine Or.inr ⟨.ended k fun _ => .dropped, rfl, fun call => hended, ?_⟩
      exact fun call j hj => (ticket?_ended (fun _ => rfl) hj).1
    | hold now resource patience =>
      obtain rfl := Option.some.inj he
      exact Or.inr ⟨id, (List.map_id _).symm, fun _ _ => rfl, fun _ _ hk => hk⟩
    | release k =>
      obtain ⟨-, rfl⟩ := map_claimAt?_eq_some.mp he
      exact Or.inr ⟨id, (List.map_id _).symm, fun _ _ => rfl, fun _ _ hk => hk⟩
    | pass identifiers tickets =>
      obtain rfl := Option.some.inj he
      exact Or.inr ⟨id, (List.map_id _).symm, fun _ _ => rfl, fun _ _ hk => hk⟩

end InletRegistry.Reception
