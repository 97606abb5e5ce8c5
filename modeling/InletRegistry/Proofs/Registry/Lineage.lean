import InletRegistry.Proofs.Registry.History

/-!
# The changes of one inlet

What a chain of changes, each of them lawful where it stands, does to one inlet. The updates raise the
version by one each and build on each other's inlets; a claimed version is the one that the change
finds, so no two changes can claim the same; and a removal is the last change.

Nothing here speaks of requests or of locks: that the changes of a node form such a chain is shown
elsewhere.
-/

namespace InletRegistry.Registry

open InletRegistry.Access InletRegistry.Text

variable {policy : Policy} {c : Commit} {cs : List Commit} {s s' : Store} {id i : String}
  {e : Stored} {p : Proposal}

namespace Commit

theorem Lawful.execute (h : c.Lawful policy) :
    ∃ fresh, c.order.execute fresh c.before = (.ok c.result, c.after) := by
  obtain ⟨l, l', hbefore, hrun, hafter⟩ := h
  have hexecute := Order.execute_of_run hrun
  rw [hbefore, hafter] at hexecute
  exact ⟨_, hexecute⟩

/-- A lawful change touches no inlet but its own. -/
theorem Lawful.other (h : c.Lawful policy) (hi : i ≠ c.order.id) :
    c.after.find? i = c.before.find? i := by
  obtain ⟨fresh, hexecute⟩ := h.execute
  exact Order.execute_find?_ne hexecute hi

/-- A lawful change finds its inlet at the version that it claims. -/
theorem Lawful.found (h : c.Lawful policy) :
    ∃ e, c.before.find? c.order.id = some e ∧ c.order.revision.holdsAt e.version = true := by
  obtain ⟨fresh, hexecute⟩ := h.execute
  unfold Order.execute at hexecute
  split at hexecute
  · obtain ⟨e, hfind, hholds, -⟩ := Store.update_eq_ok.mp hexecute
    exact ⟨e, hfind, hholds⟩
  · obtain ⟨e, hfind, hholds, -⟩ := Store.delete_eq_ok.mp hexecute
    exact ⟨e, hfind, hholds⟩

/-- A lawful update applies its proposal to the inlet that it finds, and puts the version up by
one. -/
theorem Lawful.update (h : c.Lawful policy) (hp : c.order.change = .update p)
    (he : c.before.find? c.order.id = some e) :
    c.result.state = p.applyTo e.inlet ∧ c.result.revision.version = some (e.version + 1) ∧
      c.after.find? c.order.id = some ⟨p.applyTo e.inlet, e.version + 1⟩ := by
  obtain ⟨fresh, hexecute⟩ := h.execute
  simp only [Order.execute, hp] at hexecute
  obtain ⟨f, hf, -, hresult, hafter⟩ := Store.update_eq_ok.mp hexecute
  obtain rfl := Option.some.inj (he.symm.trans hf)
  rw [hresult, hafter]
  exact ⟨rfl, rfl, Store.lookup_put_self⟩

/-- A lawful removal leaves nothing. -/
theorem Lawful.delete (h : c.Lawful policy) (hd : c.order.change = .delete) :
    c.after.find? c.order.id = none := by
  obtain ⟨fresh, hexecute⟩ := h.execute
  simp only [Order.execute, hd] at hexecute
  obtain ⟨f, -, -, -, hafter⟩ := Store.delete_eq_ok.mp hexecute
  rw [hafter]
  exact Store.find?_erase_self

end Commit

/-! ## Chains -/

/-- What is not there is not changed, and does not come. -/
theorem Chain.absent (h : Chain s cs s') (hlawful : ∀ c ∈ cs, c.Lawful policy)
    (hnone : s.find? id = none) : (∀ c ∈ cs, c.order.id ≠ id) ∧ s'.find? id = none := by
  induction cs generalizing s with
  | nil =>
    rw [h]
    exact ⟨fun c hc => absurd hc List.not_mem_nil, hnone⟩
  | cons c cs ih =>
    obtain ⟨hbefore, hrest⟩ := h
    have hc := hlawful c List.mem_cons_self
    have hne : c.order.id ≠ id := by
      intro hid
      obtain ⟨e, hfound, -⟩ := hc.found
      rw [hbefore, hid, hnone] at hfound
      cases hfound
    have hafter : c.after.find? id = none := by
      rw [hc.other (Ne.symm hne), hbefore, hnone]
    obtain ⟨hothers, hlast⟩ := ih hrest (fun d hd => hlawful d (List.mem_cons_of_mem c hd)) hafter
    refine ⟨?_, hlast⟩
    intro d hd
    rcases List.mem_cons.mp hd with rfl | hd
    · exact hne
    · exact hothers d hd

/-- The version of an inlet never goes down. -/
theorem Chain.version_le (h : Chain s cs s') (hlawful : ∀ c ∈ cs, c.Lawful policy)
    (he : s.find? id = some e) (hc : c ∈ cs) (hid : c.order.id = id) :
    ∃ f, c.before.find? id = some f ∧ e.version ≤ f.version := by
  induction cs generalizing s e with
  | nil => cases hc
  | cons d cs ih =>
    obtain ⟨hbefore, hrest⟩ := h
    have hd := hlawful d List.mem_cons_self
    have hlawful' : ∀ c ∈ cs, c.Lawful policy := fun c hc => hlawful c (List.mem_cons_of_mem d hc)
    rcases List.mem_cons.mp hc with rfl | hc
    · rw [hbefore]
      exact ⟨e, he, Nat.le_refl _⟩
    · by_cases hdid : d.order.id = id
      · cases hchange : d.order.change with
        | update p =>
          obtain ⟨-, -, hafter⟩ := hd.update hchange (e := e) (by rw [hbefore, hdid, he])
          rw [hdid] at hafter
          obtain ⟨f, hf, hle⟩ := ih hrest hlawful' hafter hc
          exact ⟨f, hf, Nat.le_of_succ_le hle⟩
        | delete =>
          have hafter := hd.delete hchange
          rw [hdid] at hafter
          exact absurd hid ((hrest.absent hlawful' hafter).1 c hc)
      · refine ih hrest hlawful' ?_ hc
        rw [hd.other (Ne.symm hdid), hbefore, he]

/-! ## The lineage of an inlet -/

/-- The updates of an inlet among some changes. -/
def updatesOf (id : String) (cs : List Commit) : List Commit := cs.filter (·.isUpdateOf id)

/-- What some changes, in their order, do to an inlet that was there before them. -/
structure Lineage (id : String) (e : Stored) (cs : List Commit) (s : Store) : Prop where
  /-- The first update, and every other, puts the version up by one, gives that version and stores it,
  and applies its proposal to the inlet that the one before it left. -/
  updated : ∀ (k : Nat) (c : Commit), (updatesOf id cs)[k]? = some c →
    c.result.revision.version = some (e.version + (k + 1)) ∧
    c.after.find? id = some ⟨c.result.state, e.version + (k + 1)⟩ ∧
    ∃ p i, c.order.change = .update p ∧
      (e.inlet :: (updatesOf id cs).map (·.result.state))[k]? = some i ∧
      c.result.state = p.applyTo i
  /-- A version that is claimed is the one that was stored just before. -/
  claimed : ∀ c ∈ cs, c.order.id = id → ∀ v, c.order.revision.version = some v →
    ∃ f, c.before.find? id = some f ∧ f.version = v
  /-- No two changes claim the same version. -/
  once : ∀ c ∈ cs, ∀ d ∈ cs, c.order.id = id → d.order.id = id →
    ∀ v, c.order.revision.version = some v → d.order.revision.version = some v → c = d
  /-- A removal is the last change, and the inlet stays away. -/
  removed : ∀ before c after, cs = before ++ c :: after → c.order.id = id →
    c.order.change = .delete → s.find? id = none ∧ ∀ d ∈ after, d.order.id ≠ id
  /-- Without a removal, what is stored in the end is what the last update left. -/
  kept : (∀ c ∈ cs, c.order.id = id → c.order.change ≠ .delete) →
    ∃ i, (e.inlet :: (updatesOf id cs).map (·.result.state))[(updatesOf id cs).length]? = some i ∧
      s.find? id = some ⟨i, e.version + (updatesOf id cs).length⟩

namespace Lineage

theorem nil (he : s.find? id = some e) : Lineage id e [] s where
  updated k c hk := by
    rw [updatesOf, List.filter_nil, List.getElem?_nil] at hk
    cases hk
  claimed c hc := absurd hc List.not_mem_nil
  once c hc := absurd hc List.not_mem_nil
  removed before c after heq := absurd heq.symm (List.append_ne_nil_of_right_ne_nil before (List.cons_ne_nil c after))
  kept _ := ⟨e.inlet, rfl, he⟩

/-- A change of another inlet leaves a lineage. -/
theorem cons_other (h : Lineage id e cs s) (hc : c.order.id ≠ id) : Lineage id e (c :: cs) s := by
  have hupdates : updatesOf id (c :: cs) = updatesOf id cs := by
    refine List.filter_cons_of_neg ?_
    rw [Commit.isUpdateOf, decide_eq_false hc, Bool.false_and]
    exact Bool.false_ne_true
  refine ⟨?_, ?_, ?_, ?_, ?_⟩
  · rw [hupdates]
    exact h.updated
  · intro d hd hid
    rcases List.mem_cons.mp hd with rfl | hd
    · exact absurd hid hc
    · exact h.claimed d hd hid
  · intro d hd f hf hdid hfid
    rcases List.mem_cons.mp hd with rfl | hd
    · exact absurd hdid hc
    · rcases List.mem_cons.mp hf with rfl | hf
      · exact absurd hfid hc
      · exact h.once d hd f hf hdid hfid
  · intro before d after heq hid hchange
    cases before with
    | nil =>
      obtain ⟨rfl, rfl⟩ := List.cons.inj heq
      exact absurd hid hc
    | cons b before =>
      exact h.removed before d after (List.cons.inj heq).2 hid hchange
  · intro hnone
    rw [hupdates]
    exact h.kept fun d hd => hnone d (List.mem_cons_of_mem c hd)

/-- An update comes before the lineage of what it leaves. -/
theorem cons_update (h : Lineage id ⟨p.applyTo e.inlet, e.version + 1⟩ cs s)
    (hc : c.Lawful policy) (hid : c.order.id = id) (hp : c.order.change = .update p)
    (he : c.before.find? id = some e)
    (hlater : ∀ d ∈ cs, d.order.id = id →
      ∃ f, d.before.find? id = some f ∧ e.version + 1 ≤ f.version) :
    Lineage id e (c :: cs) s := by
  have hupdates : updatesOf id (c :: cs) = c :: updatesOf id cs := by
    refine List.filter_cons_of_pos ?_
    rw [Commit.isUpdateOf, hp, decide_eq_true hid]
    rfl
  obtain ⟨hstate, hversion, hafter⟩ := hc.update hp (by rw [hid, he])
  have hclaimed : ∀ v, c.order.revision.version = some v → e.version = v := by
    intro v hv
    obtain ⟨f, hf, hholds⟩ := hc.found
    obtain rfl := Option.some.inj (he.symm.trans (hid ▸ hf))
    exact ((Revision.holdsAt_iff_of_version hv _).mp hholds).symm
  -- Whatever a later change claims, it is above the version that this one finds.
  have hapart : ∀ d ∈ cs, d.order.id = id → ∀ v, d.order.revision.version = some v →
      e.version ≠ v := by
    intro d hd hdid v hv heq
    obtain ⟨f, hf, hle⟩ := hlater d hd hdid
    obtain ⟨g, hg, hgv⟩ := h.claimed d hd hdid v hv
    obtain rfl := Option.some.inj (hf.symm.trans hg)
    omega
  refine ⟨?_, ?_, ?_, ?_, ?_⟩
  · intro k d hk
    rw [hupdates] at hk ⊢
    cases k with
    | zero =>
      obtain rfl := Option.some.inj hk
      refine ⟨hversion, ?_, p, e.inlet, hp, rfl, hstate⟩
      rw [← hid, hafter, hstate]
    | succ k =>
      obtain ⟨hdversion, hdafter, q, i, hq, hi, hdstate⟩ := h.updated k d hk
      refine ⟨?_, ?_, q, i, hq, ?_, hdstate⟩
      · rw [hdversion, Nat.add_right_comm, Nat.add_assoc]
      · rw [hdafter, Nat.add_right_comm, Nat.add_assoc]
      · rw [List.map_cons, List.getElem?_cons_succ, hstate]
        exact hi
  · intro d hd hdid v hv
    rcases List.mem_cons.mp hd with rfl | hd
    · exact ⟨e, he, hclaimed v hv⟩
    · exact h.claimed d hd hdid v hv
  · intro d hd f hf hdid hfid v hdv hfv
    rcases List.mem_cons.mp hd with hdc | hdtail
    · rcases List.mem_cons.mp hf with hfc | hftail
      · rw [hdc, hfc]
      · rw [hdc] at hdv
        exact absurd (hclaimed v hdv) (hapart f hftail hfid v hfv)
    · rcases List.mem_cons.mp hf with hfc | hftail
      · rw [hfc] at hfv
        exact absurd (hclaimed v hfv) (hapart d hdtail hdid v hdv)
      · exact h.once d hdtail f hftail hdid hfid v hdv hfv
  · intro before d after heq hdid hchange
    cases before with
    | nil =>
      obtain ⟨rfl, rfl⟩ := List.cons.inj heq
      rw [hp] at hchange
      cases hchange
    | cons b before =>
      exact h.removed before d after (List.cons.inj heq).2 hdid hchange
  · intro hnone
    rw [hupdates]
    obtain ⟨i, hi, hlast⟩ := h.kept fun d hd => hnone d (List.mem_cons_of_mem c hd)
    refine ⟨i, ?_, ?_⟩
    · rw [List.map_cons, List.length_cons, List.getElem?_cons_succ, hstate]
      exact hi
    · rw [hlast, List.length_cons, Nat.add_right_comm, Nat.add_assoc]

/-- A removal after which nothing happens to the inlet. -/
theorem cons_delete (hc : c.Lawful policy) (hid : c.order.id = id)
    (hdelete : c.order.change = .delete) (hothers : ∀ d ∈ cs, d.order.id ≠ id)
    (hlast : s.find? id = none) : Lineage id e (c :: cs) s := by
  have hupdates : updatesOf id (c :: cs) = [] := by
    refine List.filter_eq_nil_iff.mpr ?_
    intro d hd
    rcases List.mem_cons.mp hd with rfl | hd
    · rw [Commit.isUpdateOf, hdelete, Bool.and_false]
      exact Bool.false_ne_true
    · rw [Commit.isUpdateOf, decide_eq_false (hothers d hd), Bool.false_and]
      exact Bool.false_ne_true
  have hself : ∀ d ∈ c :: cs, d.order.id = id → d = c := by
    intro d hd hdid
    rcases List.mem_cons.mp hd with rfl | hd
    · rfl
    · exact absurd hdid (hothers d hd)
  refine ⟨?_, ?_, ?_, ?_, ?_⟩
  · intro k d hk
    rw [hupdates, List.getElem?_nil] at hk
    cases hk
  · intro d hd hdid v hv
    obtain rfl := hself d hd hdid
    obtain ⟨f, hf, hholds⟩ := hc.found
    exact ⟨f, hid ▸ hf, ((Revision.holdsAt_iff_of_version hv _).mp hholds).symm⟩
  · intro d hd f hf hdid hfid v _ _
    rw [hself d hd hdid, hself f hf hfid]
  · intro before d after heq hdid _
    refine ⟨hlast, ?_⟩
    cases before with
    | nil =>
      obtain ⟨-, rfl⟩ := List.cons.inj heq
      exact hothers
    | cons b before =>
      have hd : d ∈ cs := by
        rw [(List.cons.inj heq).2]
        exact List.mem_append_right before List.mem_cons_self
      exact absurd hdid (hothers d hd)
  · intro hnone
    exact absurd hdelete (hnone c List.mem_cons_self hid)

end Lineage

/-- Every inlet that is there before a chain of lawful changes has a lineage. -/
theorem Chain.lineage (h : Chain s cs s') (hlawful : ∀ c ∈ cs, c.Lawful policy)
    (he : s.find? id = some e) : Lineage id e cs s' := by
  induction cs generalizing s e with
  | nil =>
    rw [h]
    exact Lineage.nil he
  | cons c cs ih =>
    obtain ⟨hbefore, hrest⟩ := h
    have hc := hlawful c List.mem_cons_self
    have hlawful' : ∀ d ∈ cs, d.Lawful policy := fun d hd => hlawful d (List.mem_cons_of_mem c hd)
    rw [← hbefore] at he
    by_cases hid : c.order.id = id
    · cases hchange : c.order.change with
      | update p =>
        have hafter := (hc.update hchange (by rw [hid, he])).2.2
        rw [hid] at hafter
        refine (ih hrest hlawful' hafter).cons_update hc hid hchange he ?_
        intro d hd hdid
        exact hrest.version_le hlawful' hafter hd hdid
      | delete =>
        have hafter := hc.delete hchange
        rw [hid] at hafter
        obtain ⟨hothers, hlast⟩ := hrest.absent hlawful' hafter
        exact Lineage.cons_delete hc hid hchange hothers hlast
    · refine (ih hrest hlawful' ?_).cons_other hid
      rw [hc.other (Ne.symm hid), he]

end InletRegistry.Registry
