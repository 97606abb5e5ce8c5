import InletRegistry.Proofs.Inlet.Rules

/-!
# What a proposal does

A proposal is looked at twice, field by field each time: when it is checked, for whether it changes the
configuration, and when it is carried out. `CarriesOut` says what carrying it out should make of an inlet:
what is proposed takes effect and what is left out stays as it was. `applyTo` makes just that of an inlet
(`carriesOut_iff`), and a proposal changes the configuration if the inlet that it makes has another one
(`changesConfiguration_iff`). Two proposals, one after the other, are one proposal (`followedBy`).
-/

namespace InletRegistry

open InletRegistry.Text

namespace Proposal

variable {α : Type} {proposed later : Option α} {present result : α} {p q : Proposal} {i j : Inlet}

/-! ## One field -/

/-- What a field becomes: what is proposed for it, or else what it was. -/
structure Fills (proposed : Option α) (present result : α) : Prop where
  given : ∀ v, proposed = some v → result = v
  kept : proposed = none → result = present

theorem fills_iff : Fills proposed present result ↔ result = proposed.getD present := by
  cases proposed with
  | none => exact ⟨fun h => h.kept rfl, fun h => ⟨nofun, fun _ => h⟩⟩
  | some v => exact ⟨fun h => h.given v rfl, fun h => ⟨fun w hw => Option.some.inj hw ▸ h, nofun⟩⟩

/-- A field that has been filled in is not changed by filling it in again. -/
theorem getD_getD (proposed : Option α) (present : α) :
    proposed.getD (proposed.getD present) = proposed.getD present := by
  cases proposed <;> rfl

/-! ## All fields -/

/-- What carrying out a proposal makes of an inlet. The id is no part of it: the one that is proposed
says only which inlet is meant. -/
structure CarriesOut (p : Proposal) (i j : Inlet) : Prop where
  id : j.id = i.id
  name : Fills p.name i.name j.name
  comments : Fills p.comments i.comments j.comments
  state : Fills p.state i.state j.state
  concurrentTasks : Fills p.concurrentTasks i.concurrentTasks j.concurrentTasks

/-- Carrying out makes of an inlet what it should, and that is only one inlet. -/
theorem carriesOut_iff : p.CarriesOut i j ↔ j = p.applyTo i := by
  constructor
  · rintro ⟨hid, hname, hcomments, hstate, htasks⟩
    obtain ⟨id, name, comments, state, tasks⟩ := j
    rw [fills_iff] at hname hcomments hstate htasks
    subst hid hname hcomments hstate htasks
    rfl
  · rintro rfl
    exact ⟨rfl, fills_iff.mpr rfl, fills_iff.mpr rfl, fills_iff.mpr rfl, fills_iff.mpr rfl⟩

/-- A proposal changes the configuration if carrying it out does. -/
theorem changesConfiguration_iff : p.changesConfiguration i = true ↔
    (p.applyTo i).name ≠ i.name ∨ (p.applyTo i).comments ≠ i.comments ∨
      (p.applyTo i).concurrentTasks ≠ i.concurrentTasks := by
  rw [changesConfiguration, Bool.or_eq_true, Bool.or_eq_true, differs_iff, differs_iff, differs_iff,
    or_assoc]
  rfl

/-- The proposal that takes each field from the later one if that has it, and else from the former. -/
def followedBy (p q : Proposal) : Proposal where
  id := q.id.or p.id
  name := q.name.or p.name
  comments := q.comments.or p.comments
  state := q.state.or p.state
  concurrentTasks := q.concurrentTasks.or p.concurrentTasks

theorem applyTo_followedBy (p q : Proposal) (i : Inlet) :
    (p.followedBy q).applyTo i = q.applyTo (p.applyTo i) := by
  simp only [applyTo, followedBy, Option.getD_or]

theorem applyTo_applyTo (p : Proposal) (i : Inlet) : p.applyTo (p.applyTo i) = p.applyTo i := by
  simp only [applyTo, getD_getD]

end Proposal

/-! ## What is checked and what is done -/

namespace Store

variable {s : Store} {p : Proposal} {i : Inlet} {id : String} {version : Nat}

/-- The check of a proposal for an inlet that runs is passed if carrying it out leaves the configuration,
and no field is proposed that no inlet may have. -/
theorem verifyUpdate_of_running (hstored : s.find? id = some ⟨i, version⟩) (hid : p.id = some id)
    (hruns : i.state = .running) :
    s.verifyUpdate p = .ok () ↔
      p.name.any isBlankText = false ∧ p.concurrentTasks ≠ some 0 ∧
        (p.applyTo i).name = i.name ∧ (p.applyTo i).comments = i.comments ∧
          (p.applyTo i).concurrentTasks = i.concurrentTasks := by
  have hkeeps : p.changesConfiguration i = false ↔
      (p.applyTo i).name = i.name ∧ (p.applyTo i).comments = i.comments ∧
        (p.applyTo i).concurrentTasks = i.concurrentTasks := by
    rw [← Bool.not_eq_true, Proposal.changesConfiguration_iff, not_or, not_or,
      Decidable.not_not, Decidable.not_not, Decidable.not_not]
  have hbreach : breach? p i id = none ↔
      p.name.any isBlankText = false ∧ p.concurrentTasks ≠ some 0 ∧ p.changesConfiguration i = false := by
    rw [breach?_eq_none]
    constructor
    · rintro ⟨hname, htasks, hconfigured, -⟩
      exact ⟨hname, htasks, hconfigured hruns⟩
    · rintro ⟨hname, htasks, hconfigured⟩
      exact ⟨hname, htasks, fun _ => hconfigured, fun hoff => by rw [hruns] at hoff; cases hoff⟩
  rw [verifyUpdate_eq_ok hid, ← hkeeps, ← hbreach]
  constructor
  · rintro ⟨e, he, hnone⟩
    obtain rfl := Option.some.inj (hstored.symm.trans he)
    exact hnone
  · exact fun hnone => ⟨_, hstored, hnone⟩

end Store

/-- **A configuration change is one thing.** A proposal is taken for a change of the configuration exactly
if the inlet that comes of it differs in its name, its comments or the number of its tasks; so a check of
a proposal for an inlet that runs lets through just what leaves these as they are. What comes of it has the
id that it had, what is proposed in every field in which something is, and what was there in every other.
A proposal that is carried out twice does what it does once, and two proposals do what the one does that
takes each field from the second where it has it and else from the first. -/
theorem Proposal.checked_as_carried_out (p q : Proposal) (i : Inlet) :
    (p.changesConfiguration i = true ↔
      (p.applyTo i).name ≠ i.name ∨ (p.applyTo i).comments ≠ i.comments ∨
        (p.applyTo i).concurrentTasks ≠ i.concurrentTasks) ∧
    (∀ j, p.CarriesOut i j ↔ j = p.applyTo i) ∧
    p.applyTo (p.applyTo i) = p.applyTo i ∧
    q.applyTo (p.applyTo i) = (p.followedBy q).applyTo i ∧
    ∀ (s : Store) (id : String) (version : Nat), s.find? id = some ⟨i, version⟩ → p.id = some id →
      i.state = .running →
      (s.verifyUpdate p = .ok () ↔
        p.name.any isBlankText = false ∧ p.concurrentTasks ≠ some 0 ∧
          (p.applyTo i).name = i.name ∧ (p.applyTo i).comments = i.comments ∧
            (p.applyTo i).concurrentTasks = i.concurrentTasks) :=
  ⟨changesConfiguration_iff, fun _ => carriesOut_iff, applyTo_applyTo p i, (applyTo_followedBy p q i).symm,
    fun _ _ _ hstored hid hruns => Store.verifyUpdate_of_running hstored hid hruns⟩

/-- Of an inlet that runs, the comments may be proposed as they are, and it may be stopped, but other
comments are refused. -/
theorem Proposal.checked_as_carried_out_running :
    (Store.holding [(⟨"p1", "in", "north", .running, 1⟩, 4)]).verifyUpdate
        ⟨some "p1", none, some "north", some .stopped, none⟩ = .ok () ∧
      (Store.holding [(⟨"p1", "in", "north", .running, 1⟩, 4)]).verifyUpdate
        ⟨some "p1", none, some "south", some .stopped, none⟩ ≠ .ok () := by
  have hstored : (Store.holding [(⟨"p1", "in", "north", .running, 1⟩, 4)]).find? "p1" =
      some ⟨⟨"p1", "in", "north", .running, 1⟩, 4⟩ := by decide
  have hkept := (checked_as_carried_out ⟨some "p1", none, some "north", some .stopped, none⟩
    ⟨none, none, none, none, none⟩ ⟨"p1", "in", "north", .running, 1⟩).2.2.2.2 _ _ _ hstored rfl rfl
  have hchanged := (checked_as_carried_out ⟨some "p1", none, some "south", some .stopped, none⟩
    ⟨none, none, none, none, none⟩ ⟨"p1", "in", "north", .running, 1⟩).2.2.2.2 _ _ _ hstored rfl rfl
  refine ⟨hkept.mpr (by decide), fun hok => ?_⟩
  exact absurd (hchanged.mp hok).2.2.2.1 (by decide)

end InletRegistry
