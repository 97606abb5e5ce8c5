import InletRegistry.Write.Desk
import Mathlib.Logic.Function.Iterate

/-!
# What the steps of a change come to

The calls that a change makes, and what they come to, one case after another: `Account`. The steps may
do and find whatever they like. `Steps.run` and `Steps.advance` make these calls and no others.
-/

namespace InletRegistry.Write

variable {σ α β : Type} {r : Revision} {calls : List (Call α)} {result : Except Failure α}

/-! ## Calls -/

namespace Call

/-- The phase of a change to which a call belongs. -/
def phase : Call α → Phase
  | authorize _ => .authorizing
  | verify _ => .verifying
  | currentVersion _ => .checking
  | execute _ => .executing

/-- The failure of a call, if it failed. -/
def failure? : Call α → Option Failure
  | authorize (.error f) => some f
  | verify (.error f) => some f
  | currentVersion (.error f) => some f
  | execute (.error f) => some f
  | _ => none

def succeeded (c : Call α) : Bool := c.failure?.isNone

end Call

/-- The phases in which a change with a revision makes a call: the version is looked up only to be
compared. -/
def callingPhases (r : Revision) : List Phase :=
  match r.version with
  | none => [.authorizing, .verifying, .executing]
  | some _ => [.authorizing, .verifying, .checking, .executing]

/-- What the calls of a change come to. -/
inductive Account (r : Revision) : List (Call α) → Except Failure α → Prop where
  | denied (f : Failure) : Account r [.authorize (.error f)] (.error f)
  /-- The verification says what the client may hear as it is. -/
  | unmet (f : Failure)
      (hplain : (∃ text, f = .preconditionFailed text) ∨ ∃ text, f = .notFound text) :
    Account r [.authorize (.ok ()), .verify (.error f)] (.error f)
  /-- It fails for any other reason. -/
  | unfit (f : Failure) (hprecondition : ∀ text, f ≠ .preconditionFailed text)
      (hfound : ∀ text, f ≠ .notFound text) :
    Account r [.authorize (.ok ()), .verify (.error f)] (.error (.preconditionFailed f.message))
  | unversioned (expected : Nat) (f : Failure) (h : r.version = some expected) :
    Account r [.authorize (.ok ()), .verify (.ok ()), .currentVersion (.error f)] (.error f)
  | stale (expected current : Nat) (h : r.version = some expected) (hne : expected ≠ current) :
    Account r [.authorize (.ok ()), .verify (.ok ()), .currentVersion (.ok current)]
      (.error (.staleRevision r.resourceId expected current))
  | compared (expected : Nat) (result : Except Failure α) (h : r.version = some expected) :
    Account r [.authorize (.ok ()), .verify (.ok ()), .currentVersion (.ok expected),
      .execute result] result
  | unconditional (result : Except Failure α) (h : r.version = none) :
    Account r [.authorize (.ok ()), .verify (.ok ()), .execute result] result

/-- The calls that a change has made when a phase of it is due. -/
inductive Sofar (r : Revision) : Phase → List (Call α) → Prop where
  | authorizing : Sofar r .authorizing []
  | verifying : Sofar r .verifying [.authorize (.ok ())]
  | checking : Sofar r .checking [.authorize (.ok ()), .verify (.ok ())]
  | compared (expected : Nat) (h : r.version = some expected) :
    Sofar r .executing [.authorize (.ok ()), .verify (.ok ()), .currentVersion (.ok expected)]
  | unconditional (h : r.version = none) :
    Sofar r .executing [.authorize (.ok ()), .verify (.ok ())]

/-- The calls of a change that has come so far. -/
def Progress.Told (r : Revision) (calls : List (Call α)) : Progress α → Prop
  | .due phase => Sofar r phase calls
  | .ended result => Account r calls result

theorem Account.of_verify (f : Failure) :
    Account (α := α) r [.authorize (.ok ()), .verify (.error f)] (.error (asPrecondition f)) := by
  unfold asPrecondition
  split
  next text => exact .unmet _ (Or.inl ⟨text, rfl⟩)
  next text => exact .unmet _ (Or.inr ⟨text, rfl⟩)
  next hprecondition hfound => exact .unfit f hprecondition hfound

section Noted

variable (steps : Steps σ α) (note : Call α → β) (s : σ) (log : List β)

theorem noted_authorize : (steps.noted note).authorize (s, log) =
    ((steps.authorize s).1, (steps.authorize s).2,
      log ++ [note (.authorize (steps.authorize s).1)]) := rfl

theorem noted_verify : (steps.noted note).verify (s, log) =
    ((steps.verify s).1, (steps.verify s).2, log ++ [note (.verify (steps.verify s).1)]) := rfl

theorem noted_currentVersion : (steps.noted note).currentVersion (s, log) =
    ((steps.currentVersion s).1, (steps.currentVersion s).2,
      log ++ [note (.currentVersion (steps.currentVersion s).1)]) := rfl

/-- A step that is due adds its call, if it makes one, and what it comes to is what the calls come
to. -/
theorem Sofar.advance {phase : Phase} (h : Sofar r phase calls) :
    ∃ more : List (Call α),
      ((steps.noted note).advance r (s, log) phase).2.2 = log ++ more.map note ∧
      (((steps.noted note).advance r (s, log) phase).1).Told r (calls ++ more) := by
  cases h with
  | authorizing =>
    refine ⟨[.authorize (steps.authorize s).1], ?_⟩
    simp only [Steps.advance, noted_authorize]
    cases (steps.authorize s).1 with
    | error f => exact ⟨rfl, Account.denied f⟩
    | ok => exact ⟨rfl, Sofar.verifying⟩
  | verifying =>
    refine ⟨[.verify (steps.verify s).1], ?_⟩
    simp only [Steps.advance, noted_verify]
    cases (steps.verify s).1 with
    | error f => exact ⟨rfl, Account.of_verify f⟩
    | ok => exact ⟨rfl, Sofar.checking⟩
  | checking =>
    simp only [Steps.advance, Steps.checkRevision]
    cases hversion : r.version with
    | none => exact ⟨[], (List.append_nil log).symm, Sofar.unconditional hversion⟩
    | some expected =>
      refine ⟨[.currentVersion (steps.currentVersion s).1], ?_⟩
      simp only [noted_currentVersion]
      cases (steps.currentVersion s).1 with
      | error f => exact ⟨rfl, Account.unversioned expected f hversion⟩
      | ok current =>
        by_cases hsame : expected = current
        · subst hsame
          simp only [↓reduceIte]
          exact ⟨rfl, Sofar.compared expected hversion⟩
        · simp only [hsame, ↓reduceIte]
          exact ⟨rfl, Account.stale expected current hversion hsame⟩
  | compared expected hversion =>
    exact ⟨[.execute (steps.execute s).1], rfl, Account.compared expected _ hversion⟩
  | unconditional hversion =>
    exact ⟨[.execute (steps.execute s).1], rfl, Account.unconditional _ hversion⟩

/-- To note the calls changes nothing else. -/
theorem noted_advance (phase : Phase) :
    ((steps.noted note).advance r (s, log) phase).1 = (steps.advance r s phase).1 ∧
      ((steps.noted note).advance r (s, log) phase).2.1 = (steps.advance r s phase).2 := by
  cases phase with
  | authorizing =>
    simp only [Steps.advance, noted_authorize]
    rcases steps.authorize s with ⟨⟨f⟩ | ⟨⟩, s⟩ <;> exact ⟨rfl, rfl⟩
  | verifying =>
    simp only [Steps.advance, noted_verify]
    rcases steps.verify s with ⟨⟨f⟩ | ⟨⟩, s⟩ <;> exact ⟨rfl, rfl⟩
  | checking =>
    simp only [Steps.advance, Steps.checkRevision]
    cases r.version with
    | none => exact ⟨rfl, rfl⟩
    | some expected =>
      simp only [noted_currentVersion]
      rcases steps.currentVersion s with ⟨⟨f⟩ | ⟨current⟩, s⟩
      · exact ⟨rfl, rfl⟩
      · by_cases hsame : expected = current
        · simp only [hsame, ↓reduceIte, and_self]
        · simp only [hsame, ↓reduceIte, and_self]
  | executing => exact ⟨rfl, rfl⟩

end Noted

/-! ## One step after another -/

/-- Goes on with a change if it has not ended. -/
def Steps.goOn (steps : Steps σ α) (r : Revision) : Progress α × σ → Progress α × σ
  | (.due phase, s) => steps.advance r s phase
  | (.ended result, s) => (.ended result, s)

/-- To take all steps at once is to take one after another. -/
theorem Steps.goOn_four (steps : Steps σ α) (r : Revision) (s : σ) :
    (steps.goOn r)^[4] (.due .authorizing, s) = (.ended (steps.run r s).1, (steps.run r s).2) := by
  simp only [Function.iterate_succ, Function.iterate_zero, Function.comp_apply, id_eq, goOn,
    advance, run]
  rcases steps.authorize s with ⟨⟨f⟩ | ⟨⟩, s⟩
  · rfl
  simp only
  rcases steps.verify s with ⟨⟨f⟩ | ⟨⟩, s⟩
  · rfl
  simp only
  rcases steps.checkRevision r s with ⟨⟨f⟩ | ⟨⟩, s⟩ <;> rfl

/-- To note the calls of a run changes nothing else. -/
theorem noted_run (steps : Steps σ α) (note : Call α → β) (r : Revision) (s : σ) (log : List β) :
    ((steps.noted note).run r (s, log)).1 = (steps.run r s).1 ∧
      ((steps.noted note).run r (s, log)).2.1 = (steps.run r s).2 := by
  have hgoOn : Function.Semiconj (fun x : Progress α × σ × List β => (x.1, x.2.1))
      ((steps.noted note).goOn r) (steps.goOn r) := by
    rintro ⟨progress, s, log⟩
    cases progress with
    | due phase =>
      obtain ⟨hprogress, hstate⟩ := noted_advance (r := r) steps note s log phase
      exact Prod.ext hprogress hstate
    | ended result => rfl
  have hfour := hgoOn.iterate_right 4 (.due .authorizing, s, log)
  rw [Steps.goOn_four, Steps.goOn_four] at hfour
  obtain ⟨hresult, hstate⟩ := Prod.mk.inj hfour
  exact ⟨Progress.ended.inj hresult, hstate⟩

/-! ## What the table says -/

/-- Calls in the order of the phases, each at most once, and each only after all before it have
succeeded. -/
structure InOrder (r : Revision) (calls : List (Call α)) : Prop where
  phases : calls.map Call.phase <+: callingPhases r
  earlier : ∀ call ∈ calls.dropLast, call.succeeded = true

theorem InOrder.nil : InOrder (α := α) r [] := ⟨List.nil_prefix, nofun⟩

theorem Sofar.succeeded {phase : Phase} (h : Sofar r phase calls) :
    ∀ call ∈ calls, call.succeeded = true := by
  cases h <;> simp [Call.succeeded, Call.failure?]

theorem Sofar.inOrder {phase : Phase} (h : Sofar r phase calls) : InOrder r calls := by
  refine ⟨?_, fun call hcall => h.succeeded call (List.dropLast_subset _ hcall)⟩
  unfold callingPhases
  cases h with
  | authorizing => exact List.nil_prefix
  | verifying | checking => cases r.version <;> exact ⟨_, rfl⟩
  | compared expected hversion | unconditional hversion =>
    rw [hversion]
    exact ⟨_, rfl⟩

/-- The call of the phase that is due keeps the order. -/
theorem Sofar.concat {phase : Phase} (h : Sofar r phase calls) {call : Call α}
    (hcall : call.phase = phase) (hversion : phase = .checking → r.version ≠ none) :
    InOrder r (calls ++ [call]) := by
  constructor
  · rw [List.map_append, List.map_singleton, hcall]
    unfold callingPhases
    cases h with
    | authorizing | verifying => cases r.version <;> exact ⟨_, rfl⟩
    | checking =>
      cases hr : r.version with
      | none => exact absurd hr (hversion rfl)
      | some expected => exact ⟨_, rfl⟩
    | compared expected hr | unconditional hr =>
      rw [hr]
      exact ⟨_, rfl⟩
  · rw [List.dropLast_concat]
    exact h.succeeded

theorem Account.inOrder (h : Account r calls result) : InOrder r calls := by
  cases h with
  | denied f => exact Sofar.authorizing.concat rfl nofun
  | unmet | unfit => exact Sofar.verifying.concat rfl nofun
  | unversioned _ _ hversion | stale _ _ hversion =>
    exact Sofar.checking.concat rfl fun _ hnone => nomatch hversion.symm.trans hnone
  | compared expected _ hversion => exact (Sofar.compared expected hversion).concat rfl nofun
  | unconditional _ hversion => exact (Sofar.unconditional hversion).concat rfl nofun

/-- A change is stale, unless one of its own steps says so, exactly if all checks before have
succeeded and the stored version is not the one that it claims. -/
theorem Account.stale_iff (h : Account r calls result) (expected current : Nat) :
    (result = .error (.staleRevision r.resourceId expected current) ∧
        ∀ call ∈ calls, call.failure? ≠ some (.staleRevision r.resourceId expected current)) ↔
      r.version = some expected ∧ expected ≠ current ∧
        calls = [.authorize (.ok ()), .verify (.ok ()), .currentVersion (.ok current)] := by
  constructor
  · rintro ⟨hstale, hown⟩
    cases h with
    | stale e c hversion hne =>
      cases hstale
      exact ⟨hversion, hne, rfl⟩
    | unfit f => cases hstale
    | _ =>
      -- The last call has failed with what the change came to.
      cases hstale
      simp [Call.failure?] at hown
  · rintro ⟨hversion, hne, rfl⟩
    cases h with
    | stale e c hversion' =>
      rw [hversion] at hversion'
      cases hversion'
      exact ⟨rfl, by simp [Call.failure?]⟩

end InletRegistry.Write
