import InletRegistry.Proofs.Registry.Lineage

/-!
# What becomes of an inlet meanwhile

A course of events may begin at any node, whatever jobs are on their way there. An inlet that no change
of the course is about stays what it is, and one that some of them are about has a greater version in
the end or is gone; so of all changes that claim the version that an inlet had at first, only the first
change of the inlet can be one.
-/

namespace InletRegistry.Registry

open InletRegistry.Access InletRegistry.Text

variable {policy : Policy} {c : Commit} {cs ds : List Commit} {s s' : Store} {id : String}
  {e f : Stored}

/-! ## Chains -/

/-- What no change is about stays what it is. -/
theorem Chain.untouched (h : Chain s cs s') (hlawful : ∀ c ∈ cs, c.Lawful policy)
    (hothers : ∀ c ∈ cs, c.order.id ≠ id) : s'.find? id = s.find? id := by
  induction cs generalizing s with
  | nil => rw [h]
  | cons c cs ih =>
    obtain ⟨hbefore, hrest⟩ := h
    have hc := (hlawful c List.mem_cons_self).other (hothers c List.mem_cons_self).symm
    rw [ih hrest (fun d hd => hlawful d (List.mem_cons_of_mem c hd))
      (fun d hd => hothers d (List.mem_cons_of_mem c hd)), hc, hbefore]

/-- The changes before some change lead to the store that it finds. -/
theorem Chain.until (h : Chain s (cs ++ c :: ds) s') : Chain s cs c.before := by
  induction cs generalizing s with
  | nil => exact h.1
  | cons d cs ih => exact ⟨h.1, ih h.2⟩

/-- What some change is about has a greater version in the end, if it is still there. -/
theorem Lineage.raised (h : Lineage id e cs s) (hc : c ∈ cs) (hid : c.order.id = id)
    (hf : s.find? id = some f) : e.version < f.version := by
  have hstays : ∀ d ∈ cs, d.order.id = id → d.order.change ≠ .delete := by
    intro d hd hdid hdelete
    obtain ⟨before, after, hsplit⟩ := List.append_of_mem hd
    rw [(h.removed before d after hsplit hdid hdelete).1] at hf
    cases hf
  have hupdate : c ∈ updatesOf id cs := by
    refine List.mem_filter.mpr ⟨hc, ?_⟩
    rw [Commit.isUpdateOf, decide_eq_true hid, Bool.true_and]
    cases hchange : c.order.change with
    | update p => rfl
    | delete => exact absurd hchange (hstays c hc hid)
  obtain ⟨i, -, hlast⟩ := h.kept hstays
  obtain rfl := Option.some.inj (hlast.symm.trans hf)
  exact Nat.lt_add_of_pos_right (List.length_pos_of_mem hupdate)

namespace Traffic

variable {t u : Traffic} {events : List Event}

/-! ## Courses -/

namespace Orderly

/-- An inlet that no change of a course is about is in the end what it was. -/
theorem untouched (h : t.Orderly) (hrun : t.run? events = some u)
    (hothers : ∀ c ∈ t.commits events, c.order.id ≠ id) : u.store.find? id = t.store.find? id :=
  (h.traced hrun).1.untouched (h.traced hrun).2 hothers

/-- An inlet that some change of a course is about has a greater version in the end, or is gone. -/
theorem raised (h : t.Orderly) (hrun : t.run? events = some u) (he : t.store.find? id = some e)
    (hc : c ∈ t.commits events) (hid : c.order.id = id) (hf : u.store.find? id = some f) :
    e.version < f.version :=
  ((h.traced hrun).1.lineage (h.traced hrun).2 he).raised hc hid hf

/-- A change that claims the version that its inlet had at first is the first change of it. -/
theorem first (h : t.Orderly) (hrun : t.run? events = some u) (he : t.store.find? id = some e)
    (hsplit : t.commits events = cs ++ c :: ds) (hid : c.order.id = id)
    (hclaim : c.order.revision.version = some e.version) :
    (∀ d ∈ cs, d.order.id ≠ id) ∧ c.before.find? id = some e := by
  obtain ⟨hchain, hlawful⟩ := h.traced hrun
  rw [hsplit] at hchain hlawful
  have huntil : Chain t.store cs c.before := hchain.until
  have hearlier : ∀ d ∈ cs, d.Lawful t.policy := fun d hd => hlawful d (List.mem_append_left _ hd)
  have hothers : ∀ d ∈ cs, d.order.id ≠ id := by
    intro d hd hdid
    obtain ⟨f, hf, hholds⟩ := (hlawful c (List.mem_append_right cs List.mem_cons_self)).found
    rw [hid] at hf
    have hraised := (huntil.lineage hearlier he).raised hd hdid hf
    exact absurd ((Revision.holdsAt_iff_of_version hclaim _).mp hholds) (Nat.ne_of_lt hraised)
  exact ⟨hothers, (huntil.untouched hearlier hothers).trans he⟩

end Orderly

end Traffic

end InletRegistry.Registry
