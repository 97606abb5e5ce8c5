import InletRegistry.Proofs.Registry.Checks

/-!
# What a failure leaves behind

An order or a read that fails leaves the store and the numbers as they were, and the trail too, unless
the failure is a denial: then the trail has one more entry, which says so.

What was recorded before matters to nothing that is done to a ledger. `since` puts a past in front of a
trail, and every operation commutes with it; so two ledgers that differ in their pasts alone stay so.
-/

namespace InletRegistry.Registry

open InletRegistry.Access InletRegistry.Text InletRegistry.Write

variable {l l' : Ledger} {policy : Policy} {kind caller id : String} {action : Action} {f : Failure}
  {o : Order} {past : List Audit.Entry} {v : Versioned Inlet}

/-- What the trail says of a failure: something only of a denial. -/
def denial (caller id : String) : Failure → List Audit.Entry
  | .authorizationDenied reason => [⟨caller, .authorizationDenied id reason⟩]
  | _ => []

namespace Ledger

/-- The ledger with more entries at the end of its trail. -/
def recordAll (l : Ledger) (entries : List Audit.Entry) : Ledger :=
  { l with trail := l.trail ++ entries }

/-- The ledger with a past in front of its trail. -/
def since (past : List Audit.Entry) (l : Ledger) : Ledger := { l with trail := past ++ l.trail }

@[simp] theorem recordAll_nil : l.recordAll [] = l := by
  simp only [recordAll, List.append_nil]

/-! ## Failures -/

/-- Whether a caller is let through hangs on the store, and only a denial is recorded. -/
theorem authorize_eq (l : Ledger) (policy : Policy) (caller id : String) (action : Action) :
    l.authorize policy caller id action = (l.store.authorize policy caller id action,
      match l.store.authorize policy caller id action with
      | .error f => l.recordAll (denial caller id f)
      | .ok () => l) := by
  unfold authorize
  rcases l.store.authorize policy caller id action with ⟨f⟩ | ⟨u⟩
  · cases f with
    | authorizationDenied reason => rfl
    | _ => exact Prod.ext rfl recordAll_nil.symm
  · rfl

theorem authorize_failed (h : l.authorize policy caller id action = (.error f, l')) :
    l' = l.recordAll (denial caller id f) := by
  rw [authorize_eq] at h
  obtain ⟨hf, rfl⟩ := Prod.mk.inj h
  rw [hf]

/-- A read that fails leaves the ledger as it was, but for a denial. -/
theorem get_failed (h : l.get policy caller id = (.error f, l')) :
    l' = l.recordAll (denial caller id f) := by
  unfold get at h
  split at h
  next hdenied =>
    obtain ⟨hf, rfl⟩ := Prod.mk.inj h
    rw [← Except.error.inj hf]
    exact authorize_failed hdenied
  next hok =>
    obtain ⟨-, rfl⟩ := authorize_ok hok
    obtain ⟨hf, rfl⟩ := Prod.mk.inj h
    unfold Store.get Store.lookup at hf
    split at hf
    next => cases hf
    next hmissing =>
      split at hmissing <;> cases hmissing
      cases hf
      exact recordAll_nil.symm

end Ledger

namespace Order

/-- Where all checks have passed, an order is executed. -/
theorem execute_of_passed {s : Store} (hp : o.Passed policy s .executing) (fresh : String) :
    ∃ v, (o.execute fresh s).1 = .ok v := by
  obtain ⟨-, -, e, he, hholds⟩ := hp
  unfold execute
  cases o.change with
  | update p =>
    have hupdate : s.update fresh o.revision p = (.ok _, _) :=
      Store.update_eq_ok.mpr ⟨e, he, hholds, rfl, rfl⟩
    exact ⟨_, congrArg Prod.fst hupdate⟩
  | delete =>
    have hdelete : s.delete fresh o.revision o.id = (.ok _, _) :=
      Store.delete_eq_ok.mpr ⟨e, he, hholds, rfl, rfl⟩
    exact ⟨_, congrArg Prod.fst hdelete⟩

/-- Only the first of the checks denies anything. -/
theorem denial_asPrecondition : denial caller id (asPrecondition f) = [] := by
  cases f <;> rfl

theorem checkRevision_failed {fresh : Ledger}
    (h : (o.steps policy).checkRevision o.revision l = (.error f, fresh)) :
    denial caller id f = [] := by
  unfold Steps.checkRevision at h
  split at h
  next => cases h
  next =>
    split at h
    next hmissing =>
      cases h
      have hf := congrArg Prod.fst hmissing
      simp only [steps, Store.currentVersion, Store.lookup] at hf
      split at hf
      next => cases hf
      next hlookup =>
        split at hlookup <;> cases hlookup
        cases hf
        rfl
    next =>
      split at h
      next => cases h
      next =>
        cases h
        rfl

theorem run_failed (h : (o.steps policy).run o.revision l = (.error f, l')) :
    l' = l.recordAll (denial o.caller o.id f) := by
  unfold Steps.run at h
  split at h
  next hdenied =>
    obtain ⟨hf, rfl⟩ := Prod.mk.inj h
    rw [← Except.error.inj hf]
    exact Ledger.authorize_failed hdenied
  next hallowed =>
    obtain ⟨hauthorized, hsame⟩ := Ledger.authorize_ok hallowed
    obtain rfl := hsame.symm
    split at h
    next hrefused =>
      obtain ⟨hf, rfl⟩ := Prod.mk.inj h
      rw [← Except.error.inj hf, denial_asPrecondition, Ledger.recordAll_nil]
      exact (Prod.mk.inj hrefused).2.symm
    next hverified =>
      obtain ⟨hverify, hsame⟩ := Prod.mk.inj hverified
      obtain rfl := hsame
      split at h
      next hstale =>
        obtain ⟨hf, rfl⟩ := Prod.mk.inj h
        rw [← Except.error.inj hf, checkRevision_failed hstale, Ledger.recordAll_nil]
        exact (congrArg Prod.snd hstale).symm.trans checkRevision_ledger
      next hchecked =>
        obtain rfl := ((congrArg Prod.snd hchecked).symm.trans checkRevision_ledger).symm
        obtain ⟨e, he⟩ := Store.exists_of_authorize hauthorized
        have hp : o.Passed policy l.store .executing :=
          ⟨hauthorized, hverify, e, he, holdsAt_of_checkRevision he hchecked⟩
        obtain ⟨v, hv⟩ := execute_of_passed hp (Uuid.ofNat l.fresh)
        have hf : (o.execute (Uuid.ofNat l.fresh) l.store).1 = .error f := congrArg Prod.fst h
        rw [hv] at hf
        cases hf

/-- **A failed order leaves the ledger as it was, but for a denial.** -/
theorem carryOut_failed (h : o.carryOut kind policy l = (.error f, l')) :
    l' = l.recordAll (denial o.caller o.id f) := by
  unfold carryOut at h
  split at h
  next hfailed =>
    obtain ⟨hf, rfl⟩ := Prod.mk.inj h
    rw [← Except.error.inj hf]
    exact run_failed hfailed
  next => cases h

end Order

/-! ## The past does not matter -/

namespace Ledger

theorem recordAll_since {entries : List Audit.Entry} :
    (l.since past).recordAll entries = (l.recordAll entries).since past := by
  simp only [recordAll, since, List.append_assoc]

theorem authorize_since :
    (l.since past).authorize policy caller id action =
      ((l.authorize policy caller id action).1, (l.authorize policy caller id action).2.since past) := by
  rw [authorize_eq, authorize_eq]
  show (l.store.authorize policy caller id action,
    match l.store.authorize policy caller id action with
    | .error f => (l.since past).recordAll (denial caller id f)
    | .ok () => l.since past) = _
  rcases l.store.authorize policy caller id action with ⟨f⟩ | ⟨u⟩
  · exact Prod.ext rfl recordAll_since
  · rfl

theorem get_since :
    (l.since past).get policy caller id =
      ((l.get policy caller id).1, (l.get policy caller id).2.since past) := by
  unfold get
  rw [authorize_since]
  rcases l.authorize policy caller id .read with ⟨⟨f⟩ | ⟨u⟩, l'⟩ <;> rfl

end Ledger

namespace Order

theorem checkRevision_since :
    (o.steps policy).checkRevision o.revision (l.since past) =
      (((o.steps policy).checkRevision o.revision l).1, l.since past) := by
  refine Prod.ext ?_ checkRevision_ledger
  unfold Steps.checkRevision
  cases o.revision.version with
  | none => rfl
  | some expected =>
    simp only [steps, Ledger.since]
    cases l.store.currentVersion o.id with
    | error f => rfl
    | ok current =>
      simp only
      split <;> rfl

theorem run_since :
    (o.steps policy).run o.revision (l.since past) =
      (((o.steps policy).run o.revision l).1, ((o.steps policy).run o.revision l).2.since past) := by
  have hauthorize : (o.steps policy).authorize (l.since past) =
      (((o.steps policy).authorize l).1, ((o.steps policy).authorize l).2.since past) :=
    Ledger.authorize_since
  unfold Steps.run
  rw [hauthorize]
  cases hallowed : (o.steps policy).authorize l with
  | mk result l' =>
    cases result with
    | error f => rfl
    | ok u =>
      obtain ⟨-, rfl⟩ := Ledger.authorize_ok hallowed
      have hverify : (o.steps policy).verify (l'.since past) = (o.verify l'.store, l'.since past) :=
        rfl
      have hverify' : (o.steps policy).verify l' = (o.verify l'.store, l') := rfl
      simp only [hverify, hverify']
      cases o.verify l'.store with
      | error f => rfl
      | ok u =>
        simp only [checkRevision_since]
        cases hchecked : (o.steps policy).checkRevision o.revision l' with
        | mk result l =>
          obtain rfl := (congrArg Prod.snd hchecked).symm.trans checkRevision_ledger
          cases result <;> rfl

theorem carryOut_since :
    o.carryOut kind policy (l.since past) =
      ((o.carryOut kind policy l).1, (o.carryOut kind policy l).2.since past) := by
  unfold carryOut
  rw [run_since]
  cases (o.steps policy).run o.revision l with
  | mk result l' =>
    cases result with
    | error f => rfl
    | ok v => exact Prod.ext rfl Ledger.recordAll_since

end Order

end InletRegistry.Registry
