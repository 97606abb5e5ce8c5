import InletRegistry.Proofs.Inlet.Entity
import InletRegistry.Proofs.Inlet.Rules
import InletRegistry.Proofs.Registry.Answers
import InletRegistry.Proofs.Registry.Meanwhile
import InletRegistry.Proofs.Registry.Outcomes

/-!
# Inlets that are sent back

The text that says of an inlet what it is may be sent back as it came. It is read as the order that the
inlet be what it is, under the claim of the version that was told (`Order.restating`). As long as the
inlet is stored as it was given (`Store.Holds`), every check of this order passes, whatever state the
inlet is in: what proposes nothing new breaks no rule. Once another change of the inlet has taken effect,
the claim does not hold any more, and never will again.
-/

namespace InletRegistry

open InletRegistry.Access InletRegistry.Text InletRegistry.Write InletRegistry.Cluster
  InletRegistry.Time

/-! ## The order to be what one is -/

/-- Whether an inlet is stored as it was given: under its own id, and at the version that was told. -/
structure Store.Holds (s : Store) (v : Versioned Inlet) (n : Nat) : Prop where
  told : v.revision.version = some n
  stored : s.find? v.state.id = some ⟨v.state, n⟩

/-- To be what it is breaks no rule of an inlet that is presentable. -/
theorem Proposal.breach?_restating {i : Inlet} (h : i.Presentable) (id : String) :
    Store.breach? (restating i) i id = none := by
  refine Store.breach?_eq_none.mpr ⟨h.named, ?_, ?_, ?_⟩
  · exact fun heq => h.manned (Option.some.inj heq)
  · intro _
    simp only [changesConfiguration, restating, differs, ne_eq, not_true_eq_false, decide_false,
      Bool.or_self]
  · intro hoff hon
    rw [Option.some.inj hon] at hoff
    cases hoff

namespace Registry

/-- The operation by which the text of an inlet is sent back. -/
def Operation.sendBack (base : String) (v : Versioned Inlet) : Operation :=
  .update (UpdateRequest.read? (Entity.ofVersioned base v).toJson.octets)

namespace Order

variable {o : Order} {caller : String} {v : Versioned Inlet} {n : Nat} {s : Store}
  {policy : Policy} {l l' : Ledger} {phase : Phase} {f : Failure}

/-- The order that an inlet be what it is, under the claim that was told with it. -/
def restating (caller : String) (v : Versioned Inlet) : Order :=
  ⟨caller, .ofTag v.revision.toTag v.state.id, .update (.restating v.state)⟩

/-- What is sent back comes to that order. -/
theorem toTask_sendBack (kind base caller : String) (hversion : v.revision.version = some n)
    (hn : n ≤ Decimal.word64) :
    (Operation.sendBack base v).toTask kind caller v.state.id = .ok (.order (restating caller v)) := by
  have hread : UpdateRequest.read? (Entity.ofVersioned base v).toJson.octets = some (.restating v) := by
    refine UpdateRequest.read?_ofVersioned fun m hm => ?_
    obtain rfl := Option.some.inj (hversion.symm.trans hm)
    exact hn
  have hclaim : v.revision.toTag.version ≠ none := by
    rw [Revision.toTag, hversion]
    exact nofun
  have hchecked : checkUpdate v.state.id (some (UpdateRequest.restating v)) =
      .ok (v.revision.toTag, .restating v.state) := by
    simp only [checkUpdate, UpdateRequest.restating, Proposal.restating, ne_eq, not_true_eq_false,
      hclaim, ↓reduceIte]
  simp only [Operation.sendBack, Operation.toTask, hread, hchecked]
  rfl

theorem sensible_restating (hversion : v.revision.version = some n) : (restating caller v).Sensible := by
  refine ⟨rfl, ?_⟩
  show v.revision.version ≠ none
  rw [hversion]
  exact nofun

/-- All checks of the order pass where the inlet is stored as it was given. -/
theorem passed_restating (hallowed : policy.allows caller (Store.resourceName v.state.id) .write = true)
    (hpresentable : v.state.Presentable) (h : s.Holds v n) :
    (restating caller v).Passed policy s .executing := by
  have hfind : s.find? (restating caller v).id = some ⟨v.state, n⟩ := h.stored
  refine ⟨?_, ?_, _, hfind, ?_⟩
  · simp only [Store.authorize, Store.resolve, Store.lookup_of_find? hfind, Policy.authorize]
    exact if_pos hallowed
  · exact (Store.verifyUpdate_eq_ok rfl).mpr ⟨_, h.stored, Proposal.breach?_restating hpresentable _⟩
  · exact (Revision.holdsAt_iff_of_version h.told _).mpr rfl

/-- Where all checks pass, no step ends an order with a failure. -/
theorem Passed.advance_ne (hp : o.Passed policy l.store .executing) :
    (o.steps policy).advance o.revision l phase ≠ (.ended (.error f), l') := by
  intro h
  cases phase with
  | authorizing =>
    have hallowed : (o.steps policy).authorize l = (.ok (), l) := by
      simp only [steps, Ledger.authorize, hp.1]
    simp only [Steps.advance, hallowed] at h
    cases h
  | verifying =>
    have hverified : (o.steps policy).verify l = (.ok (), l) := by
      simp only [steps, hp.2.1]
    simp only [Steps.advance, hverified] at h
    cases h
  | checking =>
    simp only [Steps.advance, checkRevision_of_passed hp] at h
    cases h
  | executing =>
    obtain ⟨v, hv⟩ := execute_of_passed hp (Uuid.ofNat l.fresh)
    have hf := Progress.ended.inj (Prod.mk.inj h).1
    rw [show (o.execute (Uuid.ofNat l.fresh) l.store).1 = .error f from hf] at hv
    cases hv

/-- Where all checks pass, an order is judged by what is stored for its inlet. -/
theorem Passed.judged {e : Stored} (hp : o.Passed policy s .executing) (he : s.find? o.id = some e) :
    o.judge policy s = .ok e := by
  obtain ⟨hallowed, hverified, g, hg, hholds⟩ := hp
  obtain rfl := Option.some.inj (he.symm.trans hg)
  simp only [judge, hallowed, hverified, Store.lookup_of_find? he]
  cases hversion : o.revision.version with
  | none => rfl
  | some expected =>
    simp only [(Revision.holdsAt_iff_of_version hversion _).mp hholds, ↓reduceIte]

end Order

end Registry
end InletRegistry
