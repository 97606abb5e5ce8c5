import InletRegistry.Inlet.Store
import InletRegistry.Proofs.Lookup

/-!
# Reading and writing the store

Every question about an inlet is answered from what `find?` gives for its id, so two stores that agree
there give the same answers. An update and a removal succeed exactly where the claim holds, and they
touch no other id.
-/

namespace InletRegistry.Store

open InletRegistry.Access InletRegistry.Lookup

variable {s s' : Store} {policy : Policy} {principal id i fresh : String} {action : Action}
  {r : Revision} {p : Proposal} {e : Stored} {v : Versioned Inlet} {l : List (String × Stored)}

/-! ## Questions about one id -/

theorem lookup_eq_ok : s.lookup id = .ok e ↔ s.find? id = some e := by
  unfold lookup
  cases s.find? id with
  | none => exact ⟨nofun, nofun⟩
  | some f => exact ⟨fun h => congrArg some (Except.ok.inj h), fun h => by rw [Option.some.inj h]⟩

theorem lookup_of_find? (h : s.find? id = some e) : s.lookup id = .ok e := lookup_eq_ok.mpr h

theorem lookup_congr (h : s.find? id = s'.find? id) : s.lookup id = s'.lookup id := by
  unfold lookup
  rw [h]

theorem authorize_congr (h : s.find? id = s'.find? id) :
    s.authorize policy principal id action = s'.authorize policy principal id action := by
  unfold authorize resolve
  rw [lookup_congr h]

theorem verifyUpdate_congr (h : s.find? id = s'.find? id) (hp : p.id = some id) :
    s.verifyUpdate p = s'.verifyUpdate p := by
  simp only [verifyUpdate, hp, Option.getD_some, lookup_congr h]

theorem verifyDelete_congr (h : s.find? id = s'.find? id) :
    s.verifyDelete id = s'.verifyDelete id := by
  unfold verifyDelete
  rw [lookup_congr h]

/-- Whoever is let through to an inlet, the inlet is there. -/
theorem exists_of_authorize (h : s.authorize policy principal id action = .ok ()) :
    ∃ e, s.find? id = some e := by
  unfold authorize resolve at h
  cases hl : s.lookup id with
  | error f =>
    rw [hl] at h
    cases h
  | ok e => exact ⟨e, lookup_eq_ok.mp hl⟩

/-- A claim holds where the inlet is there at a version that it allows. -/
theorem claimed_eq_ok :
    s.claimed r id = .ok e ↔ s.find? id = some e ∧ r.holdsAt e.version = true := by
  unfold claimed
  cases hl : s.lookup id with
  | error f =>
    refine ⟨nofun, ?_⟩
    rintro ⟨hfind, -⟩
    rw [lookup_of_find? hfind] at hl
    cases hl
  | ok g =>
    have hg := lookup_eq_ok.mp hl
    simp only
    split
    next hholds =>
      constructor
      · intro h
        obtain rfl := Except.ok.inj h
        exact ⟨hg, hholds⟩
      · rintro ⟨hfind, -⟩
        rw [Option.some.inj (hg.symm.trans hfind)]
    next hholds =>
      refine ⟨nofun, ?_⟩
      rintro ⟨hfind, hallowed⟩
      obtain rfl := Option.some.inj (hg.symm.trans hfind)
      exact absurd hallowed hholds

/-! ## Writing one id -/

theorem lookup_put_self : (put id e l).lookup id = some e := by
  induction l with
  | nil => exact List.lookup_cons_self
  | cons f l ih =>
    obtain ⟨i, f⟩ := f
    by_cases hi : i = id
    · simp only [put, hi, ↓reduceIte]
      exact List.lookup_cons_self
    · have hne : (id == i) = false := beq_eq_false_iff_ne.mpr (Ne.symm hi)
      simp only [put, hi, ↓reduceIte, List.lookup_cons, hne]
      exact ih

theorem lookup_put_ne (h : i ≠ id) : (put id e l).lookup i = l.lookup i := by
  induction l with
  | nil =>
    have hne : (i == id) = false := beq_eq_false_iff_ne.mpr h
    simp only [put, List.lookup_cons, List.lookup_nil, hne]
  | cons f l ih =>
    obtain ⟨j, f⟩ := f
    by_cases hj : j = id
    · have hne : (i == id) = false := beq_eq_false_iff_ne.mpr h
      simp only [put, hj, ↓reduceIte, List.lookup_cons, hne]
    · simp only [put, hj, ↓reduceIte, List.lookup_cons]
      rw [ih]

/-- What is put under two ids may be put in either order, if one of them is there already. -/
theorem put_comm {f : Stored} (h : i ≠ id) (hi : l.lookup i ≠ none) :
    put i e (put id f l) = put id f (put i e l) := by
  induction l with
  | nil => exact absurd List.lookup_nil hi
  | cons g l ih =>
    obtain ⟨j, g⟩ := g
    by_cases hj : j = i
    · have hne : ¬ i = id := h
      subst hj
      simp only [put, hne, ↓reduceIte]
    · by_cases hk : j = id
      · subst hk
        simp only [put, hj, ↓reduceIte]
      · have hne : (i == j) = false := beq_eq_false_iff_ne.mpr (Ne.symm hj)
        rw [List.lookup_cons, hne] at hi
        simp only [put, hj, hk, ↓reduceIte, ih hi]

/-- Leaving an id out does not disturb what is put under another. -/
theorem filter_put_ne (h : i ≠ id) :
    (put i e l).filter (·.1 ≠ id) = put i e (l.filter (·.1 ≠ id)) := by
  induction l with
  | nil => simp [put, h]
  | cons g l ih =>
    obtain ⟨j, g⟩ := g
    by_cases hj : j = i
    · subst hj
      simp [put, h]
    · by_cases hk : j = id
      · subst hk
        simp only [put, hj, ↓reduceIte, List.filter_cons, ne_eq, not_true_eq_false, decide_false,
          Bool.false_eq_true]
        exact ih
      · simp only [put, hj, ↓reduceIte, List.filter_cons, ne_eq, hk, not_false_eq_true, decide_true]
        rw [← ih]

/-- Leaving an id out leaves out what was put under it. -/
theorem filter_put_self : (put id e l).filter (·.1 ≠ id) = l.filter (·.1 ≠ id) := by
  induction l with
  | nil => simp [put]
  | cons g l ih =>
    obtain ⟨j, g⟩ := g
    by_cases hj : j = id
    · simp [put, hj]
    · simp only [put, hj, ↓reduceIte, List.filter_cons, ne_eq, not_false_eq_true, decide_true]
      rw [← ih]

theorem find?_erase_self : (s.erase id).find? id = none := lookup_filter_self

theorem find?_erase_ne (h : i ≠ id) : (s.erase id).find? i = s.find? i := lookup_filter_ne h

/-! ## Updates and removals -/

/-- An update succeeds exactly where its claim holds; it applies the proposal and puts the version up
by one. -/
theorem update_eq_ok :
    s.update fresh r p = (.ok v, s') ↔
      ∃ e, s.find? r.resourceId = some e ∧ r.holdsAt e.version = true ∧
        v = ⟨p.applyTo e.inlet, r.next fresh e.version⟩ ∧
        s' = ⟨put r.resourceId ⟨p.applyTo e.inlet, e.version + 1⟩ s.entries⟩ := by
  unfold update
  cases hc : s.claimed r r.resourceId with
  | error f =>
    refine ⟨nofun, ?_⟩
    rintro ⟨e, hfind, hholds, -⟩
    rw [claimed_eq_ok.mpr ⟨hfind, hholds⟩] at hc
    cases hc
  | ok e =>
    obtain ⟨hfind, hholds⟩ := claimed_eq_ok.mp hc
    constructor
    · intro h
      obtain ⟨hv, rfl⟩ := Prod.mk.inj h
      exact ⟨e, hfind, hholds, (Except.ok.inj hv).symm, rfl⟩
    · rintro ⟨g, hg, -, rfl, rfl⟩
      rw [Option.some.inj (hfind.symm.trans hg)]

/-- A removal succeeds exactly where its claim holds. -/
theorem delete_eq_ok :
    s.delete fresh r id = (.ok v, s') ↔
      ∃ e, s.find? id = some e ∧ r.holdsAt e.version = true ∧
        v = ⟨e.inlet, r.next fresh e.version⟩ ∧ s' = s.erase id := by
  unfold delete
  cases hc : s.claimed r id with
  | error f =>
    refine ⟨nofun, ?_⟩
    rintro ⟨e, hfind, hholds, -⟩
    rw [claimed_eq_ok.mpr ⟨hfind, hholds⟩] at hc
    cases hc
  | ok e =>
    obtain ⟨hfind, hholds⟩ := claimed_eq_ok.mp hc
    constructor
    · intro h
      obtain ⟨hv, rfl⟩ := Prod.mk.inj h
      exact ⟨e, hfind, hholds, (Except.ok.inj hv).symm, rfl⟩
    · rintro ⟨g, hg, -, rfl, rfl⟩
      rw [Option.some.inj (hfind.symm.trans hg)]

theorem update_error {f : Failure} (h : s.update fresh r p = (.error f, s')) : s' = s := by
  unfold update at h
  split at h <;> cases h
  rfl

theorem delete_error {f : Failure} (h : s.delete fresh r id = (.error f, s')) : s' = s := by
  unfold delete at h
  split at h <;> cases h
  rfl

end InletRegistry.Store
