import InletRegistry.Proofs.Inlet.Rules
import InletRegistry.Proofs.Registry.Outcomes
import InletRegistry.Proofs.Registry.Upshot

/-!
# How an order is decided

An order that has its lock succeeds exactly if its inlet is there, its caller may write it, its change
respects the rules of an inlet's life, and the version that it claims, if it claims one, is the stored one
(`Order.Met`). If it does not, it fails by the first of these that is not so, in this order
(`Order.Refused`). Neither is said in terms of the checks that are made; `judge_eq_ok_iff` and
`judge_eq_error_iff` say that the checks come to just that.

What a success leaves of the store is the change of one entry (`Order.Decided`): each field that an update
gives is what it gives, each other one stays, and the version goes up by one; a removal leaves nothing. Of
the greatest version of 64 bits, which has no next one, it is not said what a change makes.
-/

namespace InletRegistry

open InletRegistry.Access InletRegistry.Text InletRegistry.Write

/-! ## The rules -/

namespace Proposal

/-- That a proposal would make another configuration of an inlet's. -/
def Changes (p : Proposal) (i : Inlet) : Prop :=
  (∃ name, p.name = some name ∧ name ≠ i.name) ∨
    (∃ comments, p.comments = some comments ∧ comments ≠ i.comments) ∨
    ∃ tasks, p.concurrentTasks = some tasks ∧ tasks ≠ i.concurrentTasks

variable {p : Proposal} {i : Inlet}

theorem differs_iff_exists {α : Type} [DecidableEq α] {proposed : Option α} {present : α} :
    differs proposed present = true ↔ ∃ v, proposed = some v ∧ v ≠ present := by
  cases proposed with
  | none =>
    refine iff_of_false Bool.false_ne_true ?_
    rintro ⟨v, hv, -⟩
    cases hv
  | some v =>
    rw [differs, decide_eq_true_iff]
    refine ⟨fun hne => ⟨v, rfl, hne⟩, ?_⟩
    rintro ⟨w, hw, hne⟩
    rwa [Option.some.inj hw]

theorem changes_iff : p.changesConfiguration i = true ↔ p.Changes i := by
  rw [changesConfiguration, Bool.or_eq_true, Bool.or_eq_true, differs_iff_exists, differs_iff_exists,
    differs_iff_exists, Changes, or_assoc]

end Proposal

namespace Registry

/-- That a change respects the rules of an inlet's life. -/
inductive Change.Respects (i : Inlet) : Change → Prop where
  | update {p : Proposal} (named : ∀ name, p.name = some name → isBlankText name = false)
    (manned : p.concurrentTasks ≠ some 0) (configured : i.state = .running → ¬ p.Changes i)
    (started : i.state = .disabled → p.state ≠ some .running) : Respects i (.update p)
  | delete (resting : i.state ≠ .running) : Respects i .delete

/-- The first rule that a change breaks. -/
inductive Change.Breaks (id : String) (i : Inlet) : Change → Store.RuleBreach → Prop where
  | blankName {p : Proposal} {name : String} (given : p.name = some name)
    (blank : isBlankText name = true) : Breaks id i (.update p) .blankName
  | noTasks {p : Proposal} (named : ∀ name, p.name = some name → isBlankText name = false)
    (none : p.concurrentTasks = some 0) : Breaks id i (.update p) .noTasks
  | running {p : Proposal} (named : ∀ name, p.name = some name → isBlankText name = false)
    (manned : p.concurrentTasks ≠ some 0) (runs : i.state = .running) (changes : p.Changes i) :
    Breaks id i (.update p) (.running id)
  | disabled {p : Proposal} (named : ∀ name, p.name = some name → isBlankText name = false)
    (manned : p.concurrentTasks ≠ some 0) (off : i.state = .disabled) (starts : p.state = some .running) :
    Breaks id i (.update p) (.disabled id)
  | runningOnDelete (runs : i.state = .running) : Breaks id i .delete (.runningOnDelete id)

/-- What a change leaves of an inlet, and of its entry. -/
inductive Change.Leaves (e : Stored) : Change → Inlet → Option Stored → Prop where
  /-- What an update gives is set, and what it leaves out stays. -/
  | update {p : Proposal} {i : Inlet} (id : i.id = e.inlet.id) (name : i.name = p.name.getD e.inlet.name)
    (comments : i.comments = p.comments.getD e.inlet.comments)
    (state : i.state = p.state.getD e.inlet.state)
    (tasks : i.concurrentTasks = p.concurrentTasks.getD e.inlet.concurrentTasks) :
    Leaves e (.update p) i (some ⟨i, e.version + 1⟩)
  | delete : Leaves e .delete e.inlet none

namespace Change

variable {c : Change} {p : Proposal} {i : Inlet} {id : String} {b : Store.RuleBreach}

theorem any_blank (named : ∀ name, p.name = some name → isBlankText name = false) :
    p.name.any isBlankText = false := by
  cases hname : p.name with
  | none => rfl
  | some name => exact named name hname

/-- A change respects the rules, or there is a first rule that it breaks. -/
theorem respects_or_breaks (c : Change) (i : Inlet) (id : String) :
    c.Respects i ∨ ∃ b, c.Breaks id i b := by
  cases c with
  | delete =>
    by_cases hruns : i.state = .running
    · exact .inr ⟨_, .runningOnDelete hruns⟩
    · exact .inl (.delete hruns)
  | update p =>
    by_cases hblank : ∃ name, p.name = some name ∧ isBlankText name = true
    · obtain ⟨name, hgiven, hblank⟩ := hblank
      exact .inr ⟨_, .blankName hgiven hblank⟩
    have hnamed : ∀ name, p.name = some name → isBlankText name = false := fun name hgiven =>
      Bool.eq_false_iff.mpr fun h => hblank ⟨name, hgiven, h⟩
    by_cases hnone : p.concurrentTasks = some 0
    · exact .inr ⟨_, .noTasks hnamed hnone⟩
    by_cases hruns : i.state = .running ∧ p.Changes i
    · exact .inr ⟨_, .running hnamed hnone hruns.1 hruns.2⟩
    by_cases hoff : i.state = .disabled ∧ p.state = some .running
    · exact .inr ⟨_, .disabled hnamed hnone hoff.1 hoff.2⟩
    exact .inl (.update hnamed hnone (fun h hchanges => hruns ⟨h, hchanges⟩)
      fun h hstarts => hoff ⟨h, hstarts⟩)

end Change

end Registry

namespace Store

variable {p : Proposal} {i : Inlet} {id : String} {b : RuleBreach}

theorem breach?_of_respects (h : Registry.Change.Respects i (.update p)) : breach? p i id = none := by
  cases h with
  | update named manned configured started =>
    refine breach?_eq_none.mpr ⟨Registry.Change.any_blank named, manned, fun hruns => ?_, started⟩
    exact Bool.eq_false_iff.mpr fun hchanges => configured hruns (Proposal.changes_iff.mp hchanges)

theorem breach?_of_breaks (h : Registry.Change.Breaks id i (.update p) b) : breach? p i id = some b := by
  unfold breach?
  cases h with
  | blankName given blank =>
    rw [if_pos]
    rw [given]
    exact blank
  | noTasks named hnone => rw [Registry.Change.any_blank named, if_neg Bool.false_ne_true, if_pos hnone]
  | running named manned runs changes =>
    rw [Registry.Change.any_blank named, if_neg Bool.false_ne_true, if_neg manned,
      if_pos ⟨runs, Proposal.changes_iff.mpr changes⟩]
  | disabled named manned off starts =>
    have hrests : ¬ (i.state = .running ∧ p.changesConfiguration i = true) := fun h => by
      rw [off] at h
      cases h.1
    rw [Registry.Change.any_blank named, if_neg Bool.false_ne_true, if_neg manned, if_neg hrests,
      if_pos ⟨off, starts⟩]

/-- The name by which grants know an inlet is its path. -/
theorem resourceName_eq (id : String) : resourceName id = "/input-ports/" ++ id := rfl

end Store

namespace Registry.Order

variable {o : Order} {s s' : Store} {e : Stored} {b : Store.RuleBreach} {policy : Policy} {f : Failure}
  {kind fresh : String} {l : Ledger}

/-! ## What is asked of an order -/

/-- That an order may be carried out on what is stored for its inlet. -/
structure Met (policy : Policy) (o : Order) (e : Stored) : Prop where
  granted : policy.allows o.caller ("/input-ports/" ++ o.id) .write = true
  rules : o.change.Respects e.inlet
  /-- An order that claims no version may be carried out at every one. -/
  version : ∀ v, o.revision.version = some v → v = e.version

/-- By which failure an order is turned down: that of the first condition that is not met. -/
inductive Refused (policy : Policy) (o : Order) (s : Store) : Failure → Prop where
  | missing (hnone : s.find? o.id = none) :
    Refused policy o s (.notFound ("unable to find input port with id '" ++ o.id ++ "'"))
  | denied {e : Stored} (hfind : s.find? o.id = some e)
    (hdenied : policy.allows o.caller ("/input-ports/" ++ o.id) .write = false) :
    Refused policy o s (.authorizationDenied (o.caller ++ " may not write /input-ports/" ++ o.id))
  | broken {e : Stored} {b : Store.RuleBreach} (hfind : s.find? o.id = some e)
    (hgranted : policy.allows o.caller ("/input-ports/" ++ o.id) .write = true)
    (hbreaks : o.change.Breaks o.id e.inlet b) : Refused policy o s (.preconditionFailed b.message)
  | stale {e : Stored} {expected : Nat} (hfind : s.find? o.id = some e)
    (hgranted : policy.allows o.caller ("/input-ports/" ++ o.id) .write = true)
    (hrules : o.change.Respects e.inlet) (hclaimed : o.revision.version = some expected)
    (hstale : expected ≠ e.version) : Refused policy o s (.staleRevision o.id expected e.version)

/-- An order may be carried out, or there is a first condition that is not met. -/
theorem met_or_refused (policy : Policy) (o : Order) (s : Store) :
    (∃ e, s.find? o.id = some e ∧ o.Met policy e) ∨ ∃ f, o.Refused policy s f := by
  cases hfind : s.find? o.id with
  | none => exact .inr ⟨_, .missing hfind⟩
  | some e =>
    cases hgranted : policy.allows o.caller ("/input-ports/" ++ o.id) .write with
    | false => exact .inr ⟨_, .denied hfind hgranted⟩
    | true =>
      rcases o.change.respects_or_breaks e.inlet o.id with hrules | ⟨b, hbreaks⟩
      · by_cases hversion : ∀ v, o.revision.version = some v → v = e.version
        · exact .inl ⟨e, rfl, hgranted, hrules, hversion⟩
        · obtain ⟨v, hclaimed, hstale⟩ : ∃ v, o.revision.version = some v ∧ v ≠ e.version := by
            by_contra hnone
            exact hversion fun v hv => by_contra fun hne => hnone ⟨v, hv, hne⟩
          exact .inr ⟨_, .stale hfind hgranted hrules hclaimed hstale⟩
      · exact .inr ⟨_, .broken hfind hgranted hbreaks⟩

/-! ## The checks -/

/-- A denial in words. -/
theorem denial_write (caller id : String) :
    Policy.denial caller ("/input-ports/" ++ id) .write =
      caller ++ " may not write /input-ports/" ++ id := by
  have hwords : " may not write /input-ports/" = " may not " ++ "write" ++ " " ++ "/input-ports/" := rfl
  simp only [Policy.denial, Action.name, hwords, String.append_assoc]

theorem authorize_of_granted (hfind : s.find? o.id = some e)
    (hgranted : policy.allows o.caller ("/input-ports/" ++ o.id) .write = true) :
    s.authorize policy o.caller o.id .write = .ok () := by
  simp only [Store.authorize, Store.resolve, Store.lookup_of_find? hfind, Store.resourceName_eq,
    Policy.authorize, hgranted, ↓reduceIte]

theorem verify_of_respects (ho : o.Sensible) (hfind : s.find? o.id = some e)
    (h : o.change.Respects e.inlet) : o.verify s = .ok () := by
  unfold verify
  unfold Sensible at ho
  cases hchange : o.change with
  | update p =>
    rw [hchange] at ho h
    exact (Store.verifyUpdate_eq_ok ho.1).mpr ⟨e, hfind, Store.breach?_of_respects h⟩
  | delete =>
    rw [hchange] at h
    cases h with
    | delete resting => exact Store.verifyDelete_eq_ok.mpr ⟨e, hfind, resting⟩

theorem verify_of_breaks (ho : o.Sensible) (hfind : s.find? o.id = some e)
    (h : o.change.Breaks o.id e.inlet b) : o.verify s = .error b.toFailure := by
  unfold verify
  unfold Sensible at ho
  cases hchange : o.change with
  | update p =>
    rw [hchange] at ho h
    simp only [Store.verifyUpdate, ho.1, Option.getD_some, Store.lookup_of_find? hfind,
      Store.breach?_of_breaks h]
  | delete =>
    rw [hchange] at h
    cases h with
    | runningOnDelete runs => simp only [Store.verifyDelete, Store.lookup_of_find? hfind, runs, ↓reduceIte]

theorem judge_of_met (ho : o.Sensible) (hfind : s.find? o.id = some e) (h : o.Met policy e) :
    o.judge policy s = .ok e := by
  unfold judge
  simp only [authorize_of_granted hfind h.granted, verify_of_respects ho hfind h.rules,
    Store.lookup_of_find? hfind]
  split
  next => rfl
  next expected hclaimed => exact if_pos (h.version expected hclaimed)

theorem judge_of_refused (ho : o.Sensible) (h : o.Refused policy s f) : o.judge policy s = .error f := by
  unfold judge
  cases h with
  | missing hnone =>
    simp only [Store.authorize, Store.resolve, Store.lookup, hnone]
    rfl
  | denied hfind hdenied =>
    simp only [Store.authorize, Store.resolve, Store.lookup_of_find? hfind, Store.resourceName_eq,
      Policy.authorize, hdenied, Bool.false_eq_true, ↓reduceIte, denial_write]
  | broken hfind hgranted hbreaks =>
    simp only [authorize_of_granted hfind hgranted, verify_of_breaks ho hfind hbreaks]
    rfl
  | stale hfind hgranted hrules hclaimed hstale =>
    simp only [authorize_of_granted hfind hgranted, verify_of_respects ho hfind hrules,
      Store.lookup_of_find? hfind, hclaimed]
    exact if_neg hstale

/-- **The checks pass exactly if every condition is met**, -/
theorem judge_eq_ok_iff (ho : o.Sensible) :
    o.judge policy s = .ok e ↔ s.find? o.id = some e ∧ o.Met policy e := by
  refine ⟨fun h => ?_, fun ⟨hfind, hmet⟩ => judge_of_met ho hfind hmet⟩
  rcases met_or_refused policy o s with ⟨e', hfind, hmet⟩ | ⟨f, hrefused⟩
  · rw [judge_of_met ho hfind hmet] at h
    obtain rfl := Except.ok.inj h
    exact ⟨hfind, hmet⟩
  · rw [judge_of_refused ho hrefused] at h
    cases h

/-- **and fail by the first one that is not.** -/
theorem judge_eq_error_iff (ho : o.Sensible) : o.judge policy s = .error f ↔ o.Refused policy s f := by
  refine ⟨fun h => ?_, judge_of_refused ho⟩
  rcases met_or_refused policy o s with ⟨e, hfind, hmet⟩ | ⟨f', hrefused⟩
  · rw [judge_of_met ho hfind hmet] at h
    cases h
  · rw [judge_of_refused ho hrefused] at h
    rwa [← Except.error.inj h]

/-! ## What is left -/

/-- How an order is decided, and what it leaves of a store. -/
structure Decided (policy : Policy) (o : Order) (fresh : String) (s s' : Store) (outcome : Outcome) :
    Prop where
  success : (∃ v, outcome = .ok v) ↔ ∃ e, s.find? o.id = some e ∧ o.Met policy e
  failure : ∀ f, outcome = .error f ↔ o.Refused policy s f
  /-- As long as there is a next version of 64 bits, that is the one that the answer has. A client that
  did not say who it is gets the fresh identifier. -/
  effect : ∀ e, s.find? o.id = some e → o.Met policy e → e.version < Decimal.word64 →
    ∃ i entry, o.change.Leaves e i entry ∧
      outcome = .ok ⟨i, ⟨some (e.version + 1),
        if o.revision.clientId = "" then fresh else o.revision.clientId, o.id⟩⟩ ∧
      s'.find? o.id = entry
  others : ∀ j, j ≠ o.id → s'.find? j = s.find? j
  unchanged : ∀ f, outcome = .error f → s' = s

/-- What an order makes of an entry is what its change leaves. -/
theorem leaves_amend (o : Order) (s : Store) (e : Stored) (fresh : String) :
    o.change.Leaves e (o.result e fresh).state ((s.amend o.id (o.amendment e)).find? o.id) := by
  unfold result amendment
  cases o.change with
  | update p =>
    have hput : (s.amend o.id (.put ⟨p.applyTo e.inlet, e.version + 1⟩)).find? o.id =
        some ⟨p.applyTo e.inlet, e.version + 1⟩ := Store.lookup_put_self
    simp only [hput]
    exact .update rfl rfl rfl rfl rfl
  | delete =>
    have hgone : (s.amend o.id .erase).find? o.id = none := Store.find?_erase_self
    simp only [hgone]
    exact .delete

/-- **An order that has its lock is decided by its conditions.** -/
theorem carryOut_decided (ho : o.Sensible) (kind : String) (policy : Policy) (l : Ledger) :
    o.Decided policy (Uuid.ofNat l.fresh) l.store (o.carryOut kind policy l).2.store
      (o.carryOut kind policy l).1 := by
  rw [carryOut_eq, upshot]
  cases hjudge : o.judge policy l.store with
  | error f =>
    have hrefused := (judge_eq_error_iff ho).mp hjudge
    have hnot : ¬ ∃ e, l.store.find? o.id = some e ∧ o.Met policy e := by
      rintro ⟨e, hfind, hmet⟩
      rw [judge_of_met ho hfind hmet] at hjudge
      cases hjudge
    refine ⟨iff_of_false ?_ hnot, fun g => ⟨fun h => ?_, fun h => ?_⟩,
      fun e hfind hmet _ => absurd ⟨e, hfind, hmet⟩ hnot, fun _ _ => rfl, fun _ _ => rfl⟩
    · rintro ⟨v, hv⟩
      cases hv
    · rwa [← Except.error.inj h]
    · exact congrArg Except.error (Except.error.inj (hjudge.symm.trans (judge_of_refused ho h)))
  | ok e =>
    obtain ⟨hfind, hmet⟩ := (judge_eq_ok_iff ho).mp hjudge
    refine ⟨iff_of_true ⟨_, rfl⟩ ⟨e, hfind, hmet⟩, fun f => iff_of_false (fun h => ?_) fun h => ?_,
      fun e' hfind' _ _ => ?_, fun j hj => Store.find?_amend_ne hj, fun f h => ?_⟩
    · cases h
    · rw [judge_of_refused ho h] at hjudge
      cases hjudge
    · obtain rfl := Option.some.inj (hfind.symm.trans hfind')
      refine ⟨_, _, leaves_amend o l.store e (Uuid.ofNat l.fresh), ?_, rfl⟩
      unfold result Revision.next
      cases o.change <;> rfl
    · cases h

end Registry.Order

end InletRegistry
