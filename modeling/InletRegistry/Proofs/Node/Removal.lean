import InletRegistry.Proofs.Http.Removal
import InletRegistry.Proofs.Node.Admission
import InletRegistry.Proofs.Node.Checked
import InletRegistry.Proofs.Node.Identifier

/-!
# No version is dropped

A removal that claims a version must not be carried out at another one, and a slip of the pen must not make
it one that holds at every version. So a version field that is neither missing nor blank is a numeral of 64
bits, and that is the version that is expected, or the removal goes no further: nobody looks at the inlet or
its lock, nothing is noted, and the coordinator is not asked (`no_version_is_dropped`).

`entrust` is what becomes of a request where the ways to have its task carried out are left open. A request
that comes to an answer there without either way has been answered without a look at anything.
-/

namespace InletRegistry

open InletRegistry.Text InletRegistry.Http InletRegistry.Http.RemovalQuery InletRegistry.Routing
  InletRegistry.Cluster InletRegistry.Registry

namespace Node

variable {σ τ α : Type} {n : Node} {r : Request} {now : Nat} {task : Task} {answer : Response}
  {caller id : String} {version clientId : Option String} {v : Option Nat} {f : Failure}

/-! ## Both ways left open from the start -/

/-- Makes a task of a request, if it comes to one, and has it carried out here or at the coordinator. Either
way is left open, and so is the place in the cluster, on which the choice hangs. -/
def entrust (sending : Transport τ) (carryOut : Task → τ → α × τ) (m : Membership) (now : Nat)
    (r : Request) (n : Node) (t : τ) : Except Response (Reply α) × τ :=
  match n.assess now r with
  | .error answer => (.error answer, t)
  | .ok task =>
    (dispatch sending (carryOut task) m (outgoing (r.identified (n.requestIdOf r))) t).map .ok fun t => t

/-- How a node carries out a task that is entrusted to it, beside a network. -/
def startBeside (now : Nat) (task : Task) : Node × σ → Except Nat Outcome × Node × σ := fun (n, s) =>
  let (result, n) := n.start now task
  (result, n, s)

/-- How what becomes of a request is reported. -/
def reported (n : Node) : Except Response (Reply (Except Nat Outcome)) → Progress
  | .error answer => .answered answer
  | .ok reply => n.told (.ok reply)

/-- A node does no more with a request than to entrust it to itself or to the network, and to report. -/
theorem receive_eq_entrust (transport : Transport σ) (s : σ) :
    n.receive transport now r s =
      let done := n.entrust (beside transport) (startBeside now) n.membership now r (n.skipId, s)
      (n.visitOf r, (done.2.1.reported done.1).conclude (n.visitOf r), done.2) := by
  rw [receive_eq, entrust]
  cases n.assess now r with
  | error answer => rfl
  | ok task =>
    have hrole : n.skipId.membership = n.membership := rfl
    simp only [undertake, hrole, dispatch, forward_beside]
    by_cases hforward : n.membership.mustForward = true
    · simp only [hforward, ↓reduceIte]
      rfl
    · simp only [hforward, Bool.false_eq_true, ↓reduceIte, startBeside]
      rcases n.skipId.start now task with ⟨⟨ticket⟩ | ⟨outcome⟩, n'⟩ <;> rfl

/-- A request goes on as a task: whatever carries tasks out and whatever sends requests on, this task is
carried out or its request is sent on. -/
def GoesOn (n : Node) (now : Nat) (r : Request) (task : Task) : Prop :=
  ∀ (τ α : Type) (sending : Transport τ) (carryOut : Task → τ → α × τ) (m : Membership) (t : τ),
    n.entrust sending carryOut m now r t =
      (dispatch sending (carryOut task) m (outgoing (r.identified (n.requestIdOf r))) t).map .ok fun t => t

/-- A request goes no further than to its answer: nothing is carried out and nothing sent on. -/
def StopsWith (n : Node) (now : Nat) (r : Request) (answer : Response) : Prop :=
  ∀ (τ α : Type) (sending : Transport τ) (carryOut : Task → τ → α × τ) (m : Membership) (t : τ),
    n.entrust sending carryOut m now r t = (.error answer, t)

theorem goesOn_iff : n.GoesOn now r task ↔ n.assess now r = .ok task := by
  constructor
  · intro h
    -- Who carries tasks out by giving them back is given this one.
    have hback := congrArg Prod.fst
      (h Unit Task (isolated Unit) (fun task t => (task, t)) ⟨.standalone, none⟩ ())
    unfold entrust at hback
    cases hassess : n.assess now r with
    | error answer =>
      rw [hassess] at hback
      cases hback
    | ok other =>
      rw [hassess] at hback
      cases hback
      rfl
  · intro h τ α sending carryOut m t
    rw [entrust, h]

theorem stopsWith_of_assess (h : n.assess now r = .error answer) : n.StopsWith now r answer := by
  intro τ α sending carryOut m t
  rw [entrust, h]

/-- Where a request stops nothing has happened but that it was given its identifier. -/
theorem StopsWith.receive (h : n.StopsWith now r answer) (transport : Transport σ) (s : σ) :
    n.receive transport now r s =
      (n.visitOf r, .answered ((n.visitOf r).conclude answer), n.skipId, s) := by
  rw [receive_eq_entrust, h]
  rfl

/-! ## Removals -/

/-- A caller who is told asks that the inlet with an id be removed, and no known field of the query is
repeated. -/
structure AsksRemoval (n : Node) (now : Nat) (r : Request) (caller id : String)
    (version clientId : Option String) : Prop where
  told : n.callerOf now r = .ok caller
  method : r.method = "DELETE"
  path : ∃ segment, Route.ofPath? r.target.path = some (.inlet segment) ∧ decodeId segment = .ok id
  query : Reads ⟨version, clientId⟩ (Form.decode (r.target.query.getD ""))

namespace AsksRemoval

variable (h : n.AsksRemoval now r caller id version clientId)

include h

/-- What the removal comes to hangs on the version that it claims, and on nothing that the node has. -/
theorem assess_eq : n.assess now r =
    ((claimedVersion ⟨version, clientId⟩).map fun v =>
      Task.order ⟨caller, ⟨v, clientId.getD "", id⟩, .delete⟩).mapError n.refuse := by
  obtain ⟨segment, hroute, hid⟩ := h.path
  have hserves : (Route.inlet segment).serves r.method = true := by
    rw [h.method]
    rfl
  rw [assess_of_inlet h.told hroute hserves, assessInlet, hid]
  simp only [readOperation, h.method, ↓reduceIte, readRemoval, parse_eq_ok_iff.mpr h.query]
  cases claimedVersion ⟨version, clientId⟩ <;> rfl

/-- It goes on as the order that expects the version that it claims, and as no other. -/
theorem goesOn_iff_claims : n.GoesOn now r (.order ⟨caller, ⟨v, clientId.getD "", id⟩, .delete⟩) ↔
    Claims version (.ok v) := by
  rw [goesOn_iff, h.assess_eq, ← claimedVersion_eq_iff (q := ⟨version, clientId⟩)]
  cases claimedVersion ⟨version, clientId⟩ with
  | error f => simp [Except.map, Except.mapError]
  | ok w => simp [Except.map, Except.mapError]

/-- It stops as soon as it claims something that could not be meant. -/
theorem stopsWith_of_claims (hclaims : Claims version (.error f)) : n.StopsWith now r (n.refuse f) := by
  refine stopsWith_of_assess ?_
  rw [h.assess_eq, claimedVersion_of_claims hclaims]
  rfl

end AsksRemoval

/-- **No version is dropped.** A caller who is told asks for the removal of an inlet, and no known field of
the query is repeated; any text can be the version. What is left of it without the blanks at its ends is one
text. The removal goes on without an expected version exactly if there is no version field or nothing is
left of it. It goes on with an expected version exactly if what is left is a numeral, that of this version,
and below 2^64. For any other text it goes no further than to a response of status 400: whatever would have
carried it out or sent it on is not asked, so the network has not been asked for anything, and the inlets,
the locks and the audit trail are what they were. That is all that the node does: it entrusts the request to
itself or to the network. -/
theorem no_version_is_dropped (h : n.AsksRemoval now r caller id version clientId) :
    let order := fun expected => Task.order ⟨caller, ⟨expected, clientId.getD "", id⟩, .delete⟩
    (∀ s : String, Reads ⟨some s, none⟩ (Form.decode (Form.encodePair "version" s)) ∧
      ∃! kept, TrimsTo s.toList kept) ∧
    (n.GoesOn now r (order none) ↔ version = none ∨ ∃ s, version = some s ∧ TrimsTo s.toList []) ∧
    (∀ v, n.GoesOn now r (order (some v)) ↔
      ∃ s kept, version = some s ∧ TrimsTo s.toList kept ∧ Decimal.Numeral kept v ∧ v < 2 ^ 64) ∧
    (∀ s kept, version = some s → TrimsTo s.toList kept → kept ≠ [] →
      (∀ v, Decimal.Numeral kept v → 2 ^ 64 ≤ v) →
      n.StopsWith now r (n.refuse (badVersion kept)) ∧
        ∀ (τ : Type) (transport : Transport τ) (t : τ), ∃ response m,
          n.receive (noting transport) now r ([], t) = (n.visitOf r, .answered response, m, [], t) ∧
            response.status = 400 ∧ m.holdings = n.holdings) ∧
    ∀ (τ : Type) (transport : Transport τ) (t : τ),
      let done := n.entrust (beside transport) (startBeside now) n.membership now r (n.skipId, t)
      n.receive transport now r t =
        (n.visitOf r, (done.2.1.reported done.1).conclude (n.visitOf r), done.2) := by
  intro order
  refine ⟨fun s => ⟨?_, ?_⟩, ?_, fun v => ?_, fun s kept hversion hkept hnonempty hnone => ?_,
    fun τ transport t => receive_eq_entrust transport t⟩
  · rw [Form.decode_encodePair]
    exact ⟨rfl, rfl⟩
  · exact ⟨trimList s.toList, trimsTo_trimList _, fun kept hkept => (trimsTo_iff.mp hkept).symm⟩
  · exact h.goesOn_iff_claims.trans claims_none_iff
  · exact h.goesOn_iff_claims.trans claims_some_iff
  · have hstops : n.StopsWith now r (n.refuse (badVersion kept)) := by
      refine h.stopsWith_of_claims ?_
      rw [hversion]
      exact .other hkept hnonempty hnone
    refine ⟨hstops, fun τ transport t => ⟨_, _, hstops.receive (noting transport) ([], t), ?_, rfl⟩⟩
    rw [Visit.conclude_status, refuse, sign_status]
    rfl

/-- A request of `alice` to remove an inlet. -/
def dismissal (query : String) : Request :=
  ⟨"DELETE", ⟨"/input-ports/p1", some query⟩, badged.headers, []⟩

/-- A sign, zeros in front and blanks from outside ASCII do not matter, and a plus sign in the query is a
blank. The number behind the greatest one of 64 bits is refused, and so is a digit behind a character that
is only invisible. -/
theorem no_version_is_dropped_padded :
    guarded.GoesOn 0 (dismissal "version=%C2%A0%2B007%E3%80%80&clientId=c")
        (.order ⟨"alice", ⟨some 7, "c", "p1"⟩, .delete⟩) ∧
      guarded.GoesOn 0 (dismissal "version=+%E2%80%83") (.order ⟨"alice", ⟨none, "", "p1"⟩, .delete⟩) ∧
      guarded.StopsWith 0 (dismissal "version=18446744073709551616")
        (guarded.refuse (badVersion "18446744073709551616".toList)) ∧
      ∃ response m, guarded.receive (noting (isolated Unit)) 0 (dismissal "version=%E2%80%8B5") ([], ()) =
          (guarded.visitOf (dismissal "version=%E2%80%8B5"), .answered response, m, [], ()) ∧
        response.status = 400 ∧ m.holdings = guarded.holdings := by
  have htold : ∀ query, guarded.callerOf 0 (dismissal query) = .ok "alice" := by
    intro query
    show guarded.callerOf 0 badged = .ok "alice"
    decide +kernel
  have hpath : ∃ segment, Route.ofPath? "/input-ports/p1" = some (.inlet segment) ∧
      decodeId segment = .ok "p1" := ⟨"p1".toList, by decide, by decide +kernel⟩
  have hasks : ∀ {query : String} {version clientId : Option String},
      Reads ⟨version, clientId⟩ (Form.decode query) →
      guarded.AsksRemoval 0 (dismissal query) "alice" "p1" version clientId :=
    fun hquery => ⟨htold _, rfl, hpath, hquery⟩
  have hpadded : guarded.AsksRemoval 0 (dismissal "version=%C2%A0%2B007%E3%80%80&clientId=c") "alice" "p1"
      (some "\u00a0+007\u3000") (some "c") := hasks ⟨by decide +kernel, by decide +kernel⟩
  have hblank : guarded.AsksRemoval 0 (dismissal "version=+%E2%80%83") "alice" "p1"
      (some " \u2003") none := hasks ⟨by decide +kernel, by decide +kernel⟩
  have hgreat : guarded.AsksRemoval 0 (dismissal "version=18446744073709551616") "alice" "p1"
      (some "18446744073709551616") none := hasks ⟨by decide +kernel, by decide +kernel⟩
  have hunseen : guarded.AsksRemoval 0 (dismissal "version=%E2%80%8B5") "alice" "p1"
      (some "\u200b5") none := hasks ⟨by decide +kernel, by decide +kernel⟩
  obtain ⟨-, -, hnumeral, -⟩ := no_version_is_dropped hpadded
  obtain ⟨-, hnothing, -⟩ := no_version_is_dropped hblank
  obtain ⟨-, -, -, hgreater, -⟩ := no_version_is_dropped hgreat
  obtain ⟨-, -, -, hother, -⟩ := no_version_is_dropped hunseen
  have hseven : Decimal.Spells ['7'] 7 := Decimal.plain?_eq_some_iff.mp (by decide)
  have hword : Decimal.Numeral "18446744073709551616".toList (2 ^ 64) :=
    .bare (Decimal.plain?_eq_some_iff.mp (by decide +kernel))
  refine ⟨(hnumeral 7).mpr ⟨_, _, rfl, trimsTo_iff.mpr ?_, .signed hseven.cons_zero.cons_zero, by decide⟩,
    hnothing.mpr (Or.inr ⟨_, rfl, trimsTo_iff.mpr ?_⟩),
    (hgreater _ _ rfl (trimsTo_iff.mpr ?_) (by decide) fun v hv => ?_).1,
    (hother _ "\u200b5".toList rfl (trimsTo_iff.mpr ?_) (by decide) fun v hv => ?_).2 Unit (isolated Unit) ()⟩
  · decide +kernel
  · decide +kernel
  · decide +kernel
  · rw [hv.unique hword]
  · decide +kernel
  · cases hv with
    | bare hspells => exact absurd (hspells.digits '\u200b' List.mem_cons_self) (by decide)

end Node

end InletRegistry
