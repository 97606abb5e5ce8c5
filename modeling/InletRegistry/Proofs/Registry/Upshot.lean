import InletRegistry.Proofs.Locks.Visit
import InletRegistry.Proofs.Registry.Prompt

/-!
# What a request comes to

All that comes of a request hangs on what is stored for its inlet and on whether the lock of its inlet is
to be had: an outcome, in which a generated identifier may stand; what becomes of the entry of the
inlet; what the trail says of it; and how many identifiers are drawn (`Upshot`). A request does nothing
else (`Service.answer_eq`), so two requests for two inlets may come in either order.
-/

namespace InletRegistry

open InletRegistry.Access InletRegistry.Lookup InletRegistry.Text InletRegistry.Time InletRegistry.Write

/-! ## The entry of one inlet -/

/-- What becomes of the entry of an id. -/
inductive Store.Amendment where
  | keep
  | put (e : Stored)
  | erase

namespace Store

variable {s : Store} {i j : String} {a b : Amendment}

/-- The store in which an entry is amended. -/
def amend (s : Store) (id : String) : Amendment → Store
  | .keep => s
  | .put e => ⟨put id e s.entries⟩
  | .erase => s.erase id

theorem find?_amend_ne (hne : i ≠ j) : (s.amend j a).find? i = s.find? i := by
  cases a with
  | keep => rfl
  | put e => exact lookup_put_ne hne
  | erase => exact find?_erase_ne hne

/-- Two entries may be amended in either order, if nothing new is put into the store. -/
theorem amend_comm (hne : i ≠ j) (hi : ∀ e, a = .put e → s.find? i ≠ none) :
    (s.amend i a).amend j b = (s.amend j b).amend i a := by
  cases a with
  | keep => rfl
  | put e =>
    cases b with
    | keep => rfl
    | put f => exact congrArg Store.mk (put_comm hne (hi e rfl)).symm
    | erase => exact congrArg Store.mk (filter_put_ne hne)
  | erase =>
    cases b with
    | keep => rfl
    | put f => exact congrArg Store.mk (filter_put_ne hne.symm).symm
    | erase => simp only [amend, Store.erase, List.filter_filter, Bool.and_comm]

/-- What became of an entry cannot be seen once it is erased. -/
theorem erase_amend : (s.amend i a).erase i = s.erase i := by
  cases a with
  | keep => rfl
  | put e => exact congrArg Store.mk filter_put_self
  | erase => simp only [amend, Store.erase, List.filter_filter, Bool.and_self]

end Store

namespace Registry

/-- What a request comes to. -/
structure Upshot where
  /-- The outcome, by the number of the next identifier. -/
  outcome : Nat → Outcome
  amendment : Store.Amendment
  /-- What the trail says of it. -/
  entries : List Audit.Entry
  /-- How many identifiers are drawn. -/
  drawn : Nat
  /-- Whether it visits the lock of its inlet. -/
  visits : Bool

namespace Upshot

/-- Nothing but a failure, which the trail tells of if it is a denial. -/
def failed (caller id : String) (f : Failure) (visits : Bool) : Upshot :=
  ⟨fun _ => .error f, .keep, denial caller id f, 0, visits⟩

/-- What becomes of a ledger when an upshot takes place at an inlet. -/
def on (u : Upshot) (id : String) (l : Ledger) : Ledger :=
  ⟨l.store.amend id u.amendment, l.trail ++ u.entries, l.fresh + u.drawn⟩

end Upshot

namespace Order

variable {o : Order} {s s' : Store} {kind : String} {policy : Policy} {l : Ledger}

/-- What is stored for the inlet of an order, if all its checks pass, or the first failure. -/
def judge (policy : Policy) (o : Order) (s : Store) : Except Failure Stored :=
  match s.authorize policy o.caller o.id .write with
  | .error f => .error f
  | .ok () =>
    match o.verify s with
    | .error f => .error (asPrecondition f)
    | .ok () =>
      match s.lookup o.id with
      | .error f => .error f
      | .ok e =>
        match o.revision.version with
        | none => .ok e
        | some expected =>
          if expected = e.version then .ok e
          else .error (.staleRevision o.revision.resourceId expected e.version)

/-- What an order makes of a stored inlet. -/
def result (o : Order) (e : Stored) (fresh : String) : Versioned Inlet :=
  match o.change with
  | .update p => ⟨p.applyTo e.inlet, o.revision.next fresh e.version⟩
  | .delete => ⟨e.inlet, o.revision.next fresh e.version⟩

theorem result_version (o : Order) (e : Stored) (fresh : String) :
    (o.result e fresh).revision.version = some (e.version + 1) := by
  unfold result
  cases o.change <;> rfl

/-- An identifier is generated only for a client that did not say who it is, -/
theorem result_of_named {e : Stored} {fresh fresh' : String} (h : o.revision.clientId ≠ "") :
    o.result e fresh = o.result e fresh' := by
  unfold result Revision.next
  cases o.change <;> simp only [h, ↓reduceIte]

/-- and the result tells it as its client. -/
theorem result_unsigned {e : Stored} {fresh fresh' : String} :
    ({ o.result e fresh with
      revision := { (o.result e fresh).revision with clientId := "" } } : Versioned Inlet) =
    { o.result e fresh' with
      revision := { (o.result e fresh').revision with clientId := "" } } := by
  unfold result Revision.next
  cases o.change <;> rfl

/-- The trail does not tell who made a change whose client did not say who it is. -/
theorem event_result {e : Stored} (fresh : String) :
    o.event kind (o.result e fresh) = o.event kind (o.result e "") := by
  simp only [event, result_version]

/-- What becomes of the entry of its inlet. -/
def amendment (o : Order) (e : Stored) : Store.Amendment :=
  match o.change with
  | .update p => .put ⟨p.applyTo e.inlet, e.version + 1⟩
  | .delete => .erase

/-- What comes of an order that has its lock. -/
def upshot (kind : String) (policy : Policy) (o : Order) (s : Store) : Upshot :=
  match o.judge policy s with
  | .error f => .failed o.caller o.id f true
  | .ok e => ⟨fun n => .ok (o.result e (Uuid.ofNat n)), o.amendment e,
      [⟨o.caller, o.event kind (o.result e "")⟩], 1, true⟩

theorem judge_congr (ho : o.Sensible) (h : s.find? o.id = s'.find? o.id) :
    o.judge policy s = o.judge policy s' := by
  unfold judge
  rw [Store.authorize_congr h, verify_congr ho h, Store.lookup_congr h]

/-- Checks that pass are passed by what is stored. -/
theorem find?_of_judge {e : Stored} (h : o.judge policy s = .ok e) :
    s.find? o.id = some e ∧ o.revision.holdsAt e.version = true := by
  unfold judge at h
  split at h
  next => cases h
  next =>
    split at h
    next => cases h
    next =>
      split at h
      next => cases h
      next g hg =>
        have hfind := Store.lookup_eq_ok.mp hg
        split at h
        next hnone =>
          obtain rfl := Except.ok.inj h
          exact ⟨hfind, Revision.holdsAt_of_isUnconditional
            (by rw [Revision.isUnconditional, hnone]; rfl) _⟩
        next expected hversion =>
          split at h
          next hsame =>
            obtain rfl := Except.ok.inj h
            exact ⟨hfind, (Revision.holdsAt_iff_of_version hversion _).mpr hsame⟩
          next => cases h

/-- What is executed where the claim holds. -/
theorem execute_eq {e : Stored} (hfind : s.find? o.id = some e)
    (hholds : o.revision.holdsAt e.version = true) (fresh : String) :
    o.execute fresh s = (.ok (o.result e fresh), s.amend o.id (o.amendment e)) := by
  unfold execute result amendment
  cases o.change with
  | update p => exact Store.update_eq_ok.mpr ⟨e, hfind, hholds, rfl, rfl⟩
  | delete => exact Store.delete_eq_ok.mpr ⟨e, hfind, hholds, rfl, rfl⟩

/-- The steps of an order, taken at once, judge it and execute it. -/
theorem run_eq (policy : Policy) (o : Order) (l : Ledger) :
    (o.steps policy).run o.revision l =
      match o.judge policy l.store with
      | .error f => (.error f, l.recordAll (denial o.caller o.id f))
      | .ok e => (.ok (o.result e (Uuid.ofNat l.fresh)),
          { l with store := l.store.amend o.id (o.amendment e), fresh := l.fresh + 1 }) := by
  have hauthorize : (o.steps policy).authorize l = l.authorize policy o.caller o.id .write := rfl
  have hverify : (o.steps policy).verify l = (o.verify l.store, l) := rfl
  unfold judge Steps.run
  rw [hauthorize, Ledger.authorize_eq]
  cases hallowed : l.store.authorize policy o.caller o.id .write with
  | error f => rfl
  | ok u =>
    simp only [hverify]
    cases o.verify l.store with
    | error f => simp only [denial_asPrecondition, Ledger.recordAll_nil]
    | ok u =>
      obtain ⟨e, he⟩ := Store.exists_of_authorize hallowed
      have hexecute : o.revision.holdsAt e.version = true → (o.steps policy).execute l =
          (.ok (o.result e (Uuid.ofNat l.fresh)),
            { l with store := l.store.amend o.id (o.amendment e), fresh := l.fresh + 1 }) := by
        intro hholds
        simp only [steps, execute_eq he hholds]
      simp only [Store.lookup_of_find? he, Steps.checkRevision]
      cases hversion : o.revision.version with
      | none =>
        exact hexecute (Revision.holdsAt_of_isUnconditional
          (by rw [Revision.isUnconditional, hversion]; rfl) _)
      | some expected =>
        simp only [steps, Store.currentVersion, Store.lookup_of_find? he]
        by_cases hsame : expected = e.version
        · simp only [hsame, ↓reduceIte]
          exact hexecute ((Revision.holdsAt_iff_of_version hversion _).mpr hsame)
        · simp only [hsame, ↓reduceIte, denial, Ledger.recordAll_nil]

/-- An order is carried out as its upshot says. -/
theorem carryOut_eq (kind : String) (policy : Policy) (o : Order) (l : Ledger) :
    o.carryOut kind policy l =
      ((o.upshot kind policy l.store).outcome l.fresh, (o.upshot kind policy l.store).on o.id l) := by
  unfold carryOut upshot
  rw [run_eq]
  cases o.judge policy l.store with
  | error f => rfl
  | ok e =>
    simp only [event_result (Uuid.ofNat l.fresh), Upshot.on, Ledger.record]

theorem upshot_congr (ho : o.Sensible) (h : s.find? o.id = s'.find? o.id) :
    o.upshot kind policy s = o.upshot kind policy s' := by
  rw [upshot, judge_congr ho h, upshot]

end Order

/-- What comes of a read. -/
def viewed (policy : Policy) (caller id : String) (s : Store) : Upshot :=
  match s.authorize policy caller id .read with
  | .error f => .failed caller id f false
  | .ok () => ⟨fun _ => s.get id, .keep, [], 0, false⟩

theorem viewed_congr {policy : Policy} {caller id : String} {s s' : Store}
    (h : s.find? id = s'.find? id) : viewed policy caller id s = viewed policy caller id s' := by
  unfold viewed Store.get
  rw [Store.authorize_congr h, Store.lookup_congr h]

/-- An inlet is shown as the upshot says. -/
theorem Ledger.get_eq (l : Ledger) (policy : Policy) (caller id : String) :
    l.get policy caller id =
      ((viewed policy caller id l.store).outcome l.fresh, (viewed policy caller id l.store).on id l) := by
  unfold get viewed
  rw [authorize_eq]
  cases l.store.authorize policy caller id .read with
  | error f => rfl
  | ok u =>
    refine Prod.ext rfl ?_
    simp only [Upshot.on, Store.amend, List.append_nil, Nat.add_zero]

end Registry

end InletRegistry
