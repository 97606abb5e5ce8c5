import InletRegistry.Proofs.Inlet.Store

/-!
# The rules of an inlet's life

What an inlet may become is a relation of its own, `MayBecome`, apart from the function that looks for
the first rule that a proposal breaks: a proposal that breaks none makes of an inlet what it may
become. A property of inlets that every step of such a life keeps is kept by the store: an update
that was verified on the inlet that it finds keeps it, and so does a removal.
-/

namespace InletRegistry

open InletRegistry.Text

/-! ## What an inlet may become -/

namespace Inlet

variable {i j : Inlet} {p : Proposal}

/-- Whether an inlet has a name that can be seen, and at least one of its tasks may work. -/
structure Presentable (i : Inlet) : Prop where
  named : isBlankText i.name = false
  manned : i.concurrentTasks ≠ 0

instance : Decidable i.Presentable :=
  decidable_of_iff (isBlankText i.name = false ∧ i.concurrentTasks ≠ 0)
    ⟨fun h => ⟨h.1, h.2⟩, fun h => ⟨h.named, h.manned⟩⟩

/-- What an inlet may become by one update. -/
structure MayBecome (i j : Inlet) : Prop where
  /-- It stays the inlet that it is. -/
  id : j.id = i.id
  /-- What runs keeps its configuration. -/
  configured : i.state = .running →
    j.name = i.name ∧ j.comments = i.comments ∧ j.concurrentTasks = i.concurrentTasks
  /-- What is disabled is not started. -/
  started : i.state = .disabled → j.state ≠ .running
  presentable : i.Presentable → j.Presentable

end Inlet

namespace Proposal

variable {p : Proposal} {i : Inlet}

theorem getD_of_differs {α : Type} [DecidableEq α] {proposed : Option α} {present : α}
    (h : differs proposed present = false) : proposed.getD present = present := by
  refine Decidable.not_not.mp fun hne => ?_
  rw [(differs_iff proposed present).mpr hne] at h
  cases h

/-- A proposal that leaves the configuration alone, carried out, gives the same configuration. -/
theorem applyTo_configuration (h : p.changesConfiguration i = false) :
    (p.applyTo i).name = i.name ∧ (p.applyTo i).comments = i.comments ∧
      (p.applyTo i).concurrentTasks = i.concurrentTasks := by
  simp only [changesConfiguration, Bool.or_eq_false_iff] at h
  obtain ⟨⟨hname, hcomments⟩, htasks⟩ := h
  exact ⟨getD_of_differs hname, getD_of_differs hcomments, getD_of_differs htasks⟩

end Proposal

namespace Store

variable {s s' : Store} {p : Proposal} {i : Inlet} {id fresh : String} {r : Revision} {e : Stored}
  {v : Versioned Inlet} {n : Nat} {x : String × Stored}

/-- No rule is broken exactly if none of the four is. -/
theorem breach?_eq_none : breach? p i id = none ↔
    p.name.any isBlankText = false ∧ p.concurrentTasks ≠ some 0 ∧
      (i.state = .running → p.changesConfiguration i = false) ∧
      (i.state = .disabled → p.state ≠ some .running) := by
  unfold breach?
  split
  next h => exact ⟨nofun, fun g => absurd h (by rw [g.1]; exact Bool.false_ne_true)⟩
  next hname =>
    split
    next h => exact ⟨nofun, fun g => absurd h g.2.1⟩
    next htasks =>
      split
      next h => exact ⟨nofun, fun g => absurd h.2 (by rw [g.2.2.1 h.1]; exact Bool.false_ne_true)⟩
      next hrunning =>
        split
        next h => exact ⟨nofun, fun g => absurd h.2 (g.2.2.2 h.1)⟩
        next hdisabled =>
          refine ⟨fun _ => ⟨Bool.eq_false_iff.mpr hname, htasks, ?_, ?_⟩, fun _ => rfl⟩
          · exact fun h => Bool.eq_false_iff.mpr fun hchanges => hrunning ⟨h, hchanges⟩
          · exact fun h hstarts => hdisabled ⟨h, hstarts⟩

/-- A proposal that breaks no rule makes of an inlet what it may become. -/
theorem mayBecome_of_breach? (h : breach? p i id = none) : i.MayBecome (p.applyTo i) := by
  obtain ⟨hname, htasks, hrunning, hdisabled⟩ := breach?_eq_none.mp h
  refine ⟨p.applyTo_id i, fun h => Proposal.applyTo_configuration (hrunning h), ?_, ?_⟩
  · intro hoff
    have hnot := hdisabled hoff
    simp only [Proposal.applyTo]
    cases hstate : p.state with
    | none =>
      rw [Option.getD_none, hoff]
      exact nofun
    | some state => exact fun heq => hnot (hstate.trans (congrArg some heq))
  · rintro ⟨hnamed, hmanned⟩
    constructor
    · simp only [Proposal.applyTo]
      cases hgiven : p.name with
      | none => exact hnamed
      | some name => rwa [hgiven, Option.any_some] at hname
    · simp only [Proposal.applyTo]
      cases hgiven : p.concurrentTasks with
      | none => exact hmanned
      | some tasks => exact fun heq => htasks (hgiven.trans (congrArg some heq))

/-! ## Verification -/

theorem verifyUpdate_eq_ok (hp : p.id = some id) :
    s.verifyUpdate p = .ok () ↔ ∃ e, s.find? id = some e ∧ breach? p e.inlet id = none := by
  simp only [verifyUpdate, hp, Option.getD_some]
  cases hl : s.lookup id with
  | error f =>
    refine ⟨(fun hok => by cases hok), ?_⟩
    rintro ⟨e, he, -⟩
    rw [lookup_of_find? he] at hl
    cases hl
  | ok e =>
    have he := lookup_eq_ok.mp hl
    simp only
    cases hb : breach? p e.inlet id with
    | none => exact ⟨fun _ => ⟨e, he, hb⟩, fun _ => rfl⟩
    | some b =>
      refine ⟨(fun hok => by cases hok), ?_⟩
      rintro ⟨f, hf, hnone⟩
      rw [← Option.some.inj (he.symm.trans hf), hb] at hnone
      cases hnone

theorem verifyDelete_eq_ok :
    s.verifyDelete id = .ok () ↔ ∃ e, s.find? id = some e ∧ e.inlet.state ≠ .running := by
  unfold verifyDelete
  cases hl : s.lookup id with
  | error f =>
    refine ⟨nofun, ?_⟩
    rintro ⟨e, he, -⟩
    rw [lookup_of_find? he] at hl
    cases hl
  | ok e =>
    have he := lookup_eq_ok.mp hl
    simp only
    split
    next hruns =>
      refine ⟨nofun, ?_⟩
      rintro ⟨f, hf, hrests⟩
      rw [← Option.some.inj (he.symm.trans hf)] at hrests
      exact absurd hruns hrests
    next hrests => exact ⟨fun _ => ⟨e, he, hrests⟩, fun _ => rfl⟩

/-! ## What holds of every inlet that is stored -/

/-- The store that holds given inlets at their versions and nothing else. -/
def holding (seeds : List (Inlet × Nat)) : Store :=
  seeds.foldl (fun s seed => s.insert seed.1 seed.2) .empty

/-- What holds of every inlet that is stored, with the id under which it is. -/
def Every (P : String → Inlet → Prop) (s : Store) : Prop := ∀ x ∈ s.entries, P x.1 x.2.inlet

/-- Whether a property of inlets and their ids lasts whatever an inlet may become. -/
def Lasting (P : String → Inlet → Prop) : Prop := ∀ id i j, P id i → i.MayBecome j → P id j

theorem mem_put {l : List (String × Stored)} (h : x ∈ put id e l) : x = (id, e) ∨ x ∈ l := by
  induction l with
  | nil => exact Or.inl (List.mem_singleton.mp h)
  | cons y l ih =>
    unfold put at h
    split at h
    · rcases List.mem_cons.mp h with rfl | h
      · exact Or.inl rfl
      · exact Or.inr (List.mem_cons_of_mem y h)
    · rcases List.mem_cons.mp h with rfl | h
      · exact Or.inr List.mem_cons_self
      · exact (ih h).imp_right (List.mem_cons_of_mem y)

namespace Every

variable {P Q : String → Inlet → Prop}

theorem of_find? (h : s.Every P) (he : s.find? id = some e) : P id e.inlet :=
  h _ (Lookup.mem_of_lookup he)

theorem insert (h : s.Every P) (hi : P i.id i) : (s.insert i n).Every P := by
  intro x hx
  rcases mem_put hx with rfl | hx
  · exact hi
  · exact h x hx

theorem holding {seeds : List (Inlet × Nat)} (h : ∀ seed ∈ seeds, P seed.1.id seed.1) :
    (Store.holding seeds).Every P := by
  suffices grown : ∀ s : Store, s.Every P →
      (seeds.foldl (fun s seed => s.insert seed.1 seed.2) s).Every P from
    grown .empty fun x hx => absurd hx List.not_mem_nil
  induction seeds with
  | nil => exact fun s hs => hs
  | cons seed seeds ih =>
    intro s hs
    exact ih (fun x hx => h x (List.mem_cons_of_mem seed hx)) _ (hs.insert (h seed List.mem_cons_self))

/-- An update that was verified keeps what lasts. -/
theorem update (h : s.Every P) (hP : Lasting P) (hp : p.id = some r.resourceId)
    (hverified : s.verifyUpdate p = .ok ()) (hdone : s.update fresh r p = (.ok v, s')) :
    s'.Every P := by
  obtain ⟨e, he, hrules⟩ := (verifyUpdate_eq_ok hp).mp hverified
  obtain ⟨f, hf, -, -, rfl⟩ := update_eq_ok.mp hdone
  obtain rfl := Option.some.inj (he.symm.trans hf)
  intro x hx
  rcases mem_put hx with rfl | hx
  · exact hP _ _ _ (h.of_find? he) (mayBecome_of_breach? hrules)
  · exact h x hx

theorem delete (h : s.Every P) (hdone : s.delete fresh r id = (.ok v, s')) : s'.Every P := by
  obtain ⟨e, -, -, -, rfl⟩ := delete_eq_ok.mp hdone
  exact fun x hx => h x (List.mem_filter.mp hx).1

end Every

/-- That an inlet is stored under its own id lasts. -/
theorem lasting_id : Lasting fun id i => i.id = id := fun _ _ _ hi hj => hj.id.trans hi

theorem lasting_presentable : Lasting fun _ i => i.Presentable := fun _ _ _ hi hj => hj.presentable hi

end Store

end InletRegistry
