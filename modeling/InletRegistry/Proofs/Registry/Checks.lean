import InletRegistry.Proofs.Inlet.Store
import InletRegistry.Registry.Operation

/-!
# What the checks of an order establish

The steps of an order are taken one at a time, and others may go on between them. `Passed` says what
the steps before a phase have found out about the store. It hangs on nothing but what is stored for
the inlet of the order, so it lasts as long as nobody else changes that; and where all checks have
passed, the whole order would be carried out at once with the same result.
-/

namespace InletRegistry.Registry

open InletRegistry.Access InletRegistry.Text InletRegistry.Write

variable {l l' : Ledger} {policy : Policy} {kind caller id : String} {action : Action} {f : Failure}

namespace Ledger

/-- Whoever is let through leaves the ledger as it was. -/
theorem authorize_ok (h : l.authorize policy caller id action = (.ok (), l')) :
    l.store.authorize policy caller id action = .ok () ∧ l' = l := by
  unfold authorize at h
  split at h
  next => cases h
  next =>
    obtain ⟨hok, rfl⟩ := Prod.mk.inj h
    exact ⟨hok, rfl⟩

theorem authorize_store : (l.authorize policy caller id action).2.store = l.store := by
  unfold authorize
  split <;> rfl

end Ledger

namespace Order

variable {o : Order} {s s' : Store} {phase next : Phase} {v : Versioned Inlet}

/-- Looked at where the request came in: an update proposes something for the inlet that it was sent
to, and claims a version. -/
def Sensible (o : Order) : Prop :=
  match o.change with
  | .update p => p.id = some o.id ∧ o.revision.version ≠ none
  | .delete => True

/-- An update without a fault is about the inlet that it was sent to, and claims a version. -/
theorem checkUpdate_ok {body : Option UpdateRequest} {tag : RevisionTag} {p : Proposal}
    (h : checkUpdate id body = .ok (tag, p)) : p.id = some id ∧ tag.version ≠ none := by
  unfold checkUpdate at h
  split at h
  next => cases h
  next request =>
    split at h
    next => cases h
    next proposal _ =>
      split at h
      next => cases h
      next =>
        by_cases hid : proposal.id = some id
        · rw [if_neg (Decidable.not_not.mpr hid)] at h
          split at h
          next => cases h
          next hversion =>
            cases h
            exact ⟨hid, hversion⟩
        · rw [if_pos hid] at h
          cases h

/-- An order that an operation comes to is sensible. -/
theorem sensible_of_toTask {op : Operation} (h : op.toTask kind caller id = .ok (.order o)) :
    o.Sensible := by
  cases op with
  | get => cases h
  | delete version clientId =>
    cases h
    exact trivial
  | update body =>
    simp only [Operation.toTask] at h
    cases hc : checkUpdate id body with
    | error fault =>
      rw [hc] at h
      cases h
    | ok parts =>
      obtain ⟨tag, proposal⟩ := parts
      rw [hc] at h
      cases h
      exact checkUpdate_ok hc

/-- What the steps before a phase have found out about the store. -/
def Passed (policy : Policy) (o : Order) (s : Store) : Phase → Prop
  | .authorizing => True
  | .verifying => s.authorize policy o.caller o.id .write = .ok ()
  | .checking => s.authorize policy o.caller o.id .write = .ok () ∧ o.verify s = .ok ()
  | .executing => s.authorize policy o.caller o.id .write = .ok () ∧ o.verify s = .ok () ∧
      ∃ e, s.find? o.id = some e ∧ o.revision.holdsAt e.version = true

/-- What is verified hangs on the inlet of the order. -/
theorem verify_congr (ho : o.Sensible) (h : s.find? o.id = s'.find? o.id) :
    o.verify s = o.verify s' := by
  unfold Sensible at ho
  unfold verify
  cases hchange : o.change with
  | update p =>
    rw [hchange] at ho
    exact Store.verifyUpdate_congr h ho.1
  | delete => exact Store.verifyDelete_congr h

/-- What has been found out lasts as long as the inlet of the order does not change. -/
theorem Passed.congr (ho : o.Sensible) (h : s.find? o.id = s'.find? o.id)
    (hp : o.Passed policy s phase) : o.Passed policy s' phase := by
  cases phase with
  | authorizing => trivial
  | verifying =>
    simp only [Passed] at hp ⊢
    rw [← Store.authorize_congr h]
    exact hp
  | checking =>
    simp only [Passed] at hp ⊢
    rw [← Store.authorize_congr h, ← verify_congr ho h]
    exact hp
  | executing =>
    simp only [Passed] at hp ⊢
    rw [← Store.authorize_congr h, ← verify_congr ho h, ← h]
    exact hp

/-! ## One step -/

theorem checkRevision_ledger : ((o.steps policy).checkRevision o.revision l).2 = l := by
  unfold Steps.checkRevision
  split
  · rfl
  · simp only [steps]
    split
    next heq => exact (Prod.mk.inj heq).2.symm
    next heq =>
      obtain ⟨-, rfl⟩ := Prod.mk.inj heq
      split <;> rfl

/-- The comparison of versions passes only where the claim holds. -/
theorem holdsAt_of_checkRevision {e : Stored} (he : l.store.find? o.id = some e)
    (h : (o.steps policy).checkRevision o.revision l = (.ok (), l')) :
    o.revision.holdsAt e.version = true := by
  unfold Steps.checkRevision at h
  split at h
  next hnone =>
    exact Revision.holdsAt_of_isUnconditional (by rw [Revision.isUnconditional, hnone]; rfl) _
  next expected hversion =>
    simp only [steps, Store.currentVersion, Store.lookup_of_find? he] at h
    split at h
    next hsame => exact (Revision.holdsAt_iff_of_version hversion _).mpr hsame
    next => cases h

/-- A step that does not end the order leaves the ledger. -/
theorem advance_due (h : (o.steps policy).advance o.revision l phase = (.due next, l')) :
    l' = l := by
  cases phase with
  | authorizing =>
    simp only [Steps.advance] at h
    split at h
    next => cases h
    next hok =>
      obtain ⟨-, rfl⟩ := Prod.mk.inj h
      exact (Ledger.authorize_ok hok).2
  | verifying =>
    simp only [Steps.advance] at h
    split at h
    next => cases h
    next hok =>
      obtain ⟨-, rfl⟩ := Prod.mk.inj h
      exact (Prod.mk.inj hok).2.symm
  | checking =>
    simp only [Steps.advance] at h
    split at h
    next => cases h
    next hok =>
      obtain ⟨-, rfl⟩ := Prod.mk.inj h
      exact (congrArg Prod.snd hok).symm.trans checkRevision_ledger
  | executing => cases h

/-- A step that does not end the order finds out what the next step counts on. -/
theorem Passed.advance (hp : o.Passed policy l.store phase)
    (h : (o.steps policy).advance o.revision l phase = (.due next, l')) :
    o.Passed policy l.store next := by
  cases phase with
  | authorizing =>
    simp only [Steps.advance] at h
    split at h
    next => cases h
    next hok =>
      cases (Prod.mk.inj h).1
      exact (Ledger.authorize_ok hok).1
  | verifying =>
    simp only [Steps.advance] at h
    split at h
    next => cases h
    next hok =>
      cases (Prod.mk.inj h).1
      exact ⟨hp, (Prod.mk.inj hok).1⟩
  | checking =>
    simp only [Steps.advance] at h
    split at h
    next => cases h
    next hok =>
      cases (Prod.mk.inj h).1
      obtain ⟨hallowed, hverified⟩ := hp
      obtain ⟨e, he⟩ := Store.exists_of_authorize hallowed
      exact ⟨hallowed, hverified, e, he, holdsAt_of_checkRevision he hok⟩
  | executing => cases h

/-- Only the last step ends an order with a result. -/
theorem advance_done (h : (o.steps policy).advance o.revision l phase = (.ended (.ok v), l')) :
    phase = .executing ∧ o.execute (Uuid.ofNat l.fresh) l.store = (.ok v, l'.store) := by
  cases phase with
  | authorizing | verifying | checking =>
    simp only [Steps.advance] at h
    split at h <;> cases h
  | executing =>
    obtain ⟨hv, rfl⟩ := Prod.mk.inj h
    exact ⟨rfl, Prod.ext (Write.Progress.ended.inj hv) rfl⟩

theorem execute_error {fresh : String} (h : o.execute fresh s = (.error f, s')) : s' = s := by
  unfold execute at h
  split at h
  · exact Store.update_error h
  · exact Store.delete_error h

/-- An order changes no inlet but its own. -/
theorem execute_find?_ne {fresh i : String} (h : o.execute fresh s = (.ok v, s')) (hi : i ≠ o.id) :
    s'.find? i = s.find? i := by
  unfold execute at h
  split at h
  · obtain ⟨e, -, -, -, rfl⟩ := Store.update_eq_ok.mp h
    exact Store.lookup_put_ne hi
  · obtain ⟨e, -, -, -, rfl⟩ := Store.delete_eq_ok.mp h
    exact Store.find?_erase_ne hi

/-- A step that ends an order with a failure leaves the store. -/
theorem advance_failed (h : (o.steps policy).advance o.revision l phase = (.ended (.error f), l')) :
    l'.store = l.store := by
  cases phase with
  | authorizing =>
    simp only [Steps.advance] at h
    split at h
    next heq =>
      obtain ⟨-, rfl⟩ := Prod.mk.inj h
      exact congrArg (fun r => r.2.store) heq.symm |>.trans Ledger.authorize_store
    next => cases h
  | verifying =>
    simp only [Steps.advance] at h
    split at h
    next heq =>
      obtain ⟨-, rfl⟩ := Prod.mk.inj h
      exact congrArg (fun r => r.2.store) heq.symm
    next => cases h
  | checking =>
    simp only [Steps.advance] at h
    split at h
    next heq =>
      obtain ⟨-, rfl⟩ := Prod.mk.inj h
      exact congrArg (fun r => r.2.store) heq.symm |>.trans
        (congrArg Ledger.store checkRevision_ledger)
    next => cases h
  | executing =>
    obtain ⟨hf, rfl⟩ := Prod.mk.inj h
    exact execute_error (Prod.ext (Write.Progress.ended.inj hf) rfl)

/-! ## All steps at once -/

/-- Where a claim holds, the comparison of versions passes. -/
theorem checkRevision_of_passed (hp : o.Passed policy l.store .executing) :
    (o.steps policy).checkRevision o.revision l = (.ok (), l) := by
  obtain ⟨-, -, e, he, hholds⟩ := hp
  unfold Steps.checkRevision
  split
  next => rfl
  next expected hversion =>
    have hsame : expected = e.version := (Revision.holdsAt_iff_of_version hversion _).mp hholds
    simp only [steps, Store.currentVersion, Store.lookup_of_find? he, hsame, ↓reduceIte]

/-- Where all checks have passed, the whole order is carried out as its last step is. -/
theorem run_of_passed (hp : o.Passed policy l.store .executing) :
    (o.steps policy).run o.revision l =
      ((o.execute (Uuid.ofNat l.fresh) l.store).1,
        { l with store := (o.execute (Uuid.ofNat l.fresh) l.store).2, fresh := l.fresh + 1 }) := by
  have hchecked := checkRevision_of_passed hp
  obtain ⟨hallowed, hverified, -⟩ := hp
  have hauthorize : (o.steps policy).authorize l = (.ok (), l) := by
    simp only [steps, Ledger.authorize, hallowed]
  have hverify : (o.steps policy).verify l = (.ok (), l) := by
    simp only [steps, hverified]
  simp only [Steps.run, hauthorize, hverify, hchecked]
  rfl

/-- An order that is carried out at once is executed on the store as it stands. -/
theorem execute_of_run (h : (o.steps policy).run o.revision l = (.ok v, l')) :
    o.execute (Uuid.ofNat l.fresh) l.store = (.ok v, l'.store) := by
  unfold Steps.run at h
  split at h
  next => cases h
  next hauthorized =>
    obtain ⟨-, rfl⟩ := Ledger.authorize_ok hauthorized
    split at h
    next => cases h
    next hverified =>
      obtain ⟨-, rfl⟩ := Prod.mk.inj hverified
      split at h
      next => cases h
      next hchecked =>
        obtain rfl := (congrArg Prod.snd hchecked).symm.trans checkRevision_ledger
        obtain ⟨hv, rfl⟩ := Prod.mk.inj h
        exact Prod.ext hv rfl

end Order

end InletRegistry.Registry
