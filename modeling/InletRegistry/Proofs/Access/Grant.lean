import InletRegistry.Inlet.Store
import InletRegistry.Proofs.Text.Pieces

/-!
# What grants give

A pattern is compared with a resource character by character. That is to say that it covers every
resource, the one of its name, or those that lie strictly below a path, segment by segment (`Covers`,
`covers_iff`). A policy allows what one of its grants gives (`allows_iff`): how often a grant is in it and
at which place does not matter, and more grants allow more.
-/

namespace InletRegistry.Access

open InletRegistry.Text

variable {pattern resource principal id stem : String} {action : Action} {g : Grant} {p q : Policy}
  {resolve : String → Except Failure String}

namespace Grant

/-! ## Patterns -/

/-- The resources that a pattern covers. -/
inductive Covers (pattern resource : String) : Prop
  | every (hpattern : pattern = "*")
  | itself (hpattern : pattern = resource)
  /-- Below a path lies what has its segments and more behind them. -/
  | below {stem : String} (hpattern : pattern = stem ++ "/*")
      (hbegins : segments stem.toList <+: segments resource.toList)
      (hproper : segments stem.toList ≠ segments resource.toList)

theorem stem?_eq_some_iff {pattern stem : List Char} :
    stem? pattern = some stem ↔ pattern = stem ++ ['/', '*'] := by
  unfold stem?
  constructor
  · intro h
    split at h
    next rest hreverse =>
      rw [← Option.some.inj h, ← List.reverse_reverse pattern, hreverse, List.reverse_cons,
        List.reverse_cons, List.append_assoc]
      rfl
    next => cases h
  · rintro rfl
    rw [List.reverse_append]
    simp only [List.reverse_cons, List.reverse_nil, List.nil_append, List.cons_append,
      List.reverse_reverse]

theorem covers_iff : covers pattern resource = true ↔ Covers pattern resource := by
  rw [covers, Bool.or_eq_true, Bool.or_eq_true, beq_iff_eq, beq_iff_eq]
  constructor
  · rintro ((hpattern | hpattern) | hbelow)
    · exact .every hpattern
    · exact .itself hpattern
    · split at hbelow
      next stem hstem =>
        obtain ⟨hbegins, hproper⟩ := liesBelow_iff.mp hbelow
        have hpattern : pattern = String.ofList stem ++ "/*" := by
          rw [← String.toList_inj, stem?_eq_some_iff.mp hstem, String.toList_append,
            String.toList_ofList]
          rfl
        exact .below hpattern (by rwa [String.toList_ofList]) (by rwa [String.toList_ofList])
      next => cases hbelow
  · rintro (hpattern | hpattern | ⟨hpattern, hbegins, hproper⟩)
    · exact Or.inl (Or.inl hpattern)
    · exact Or.inl (Or.inr hpattern)
    · next stem =>
      have hstem : stem? pattern.toList = some stem.toList := by
        rw [stem?_eq_some_iff, hpattern, String.toList_append]
        rfl
      simp only [hstem, liesBelow_iff.mpr ⟨hbegins, hproper⟩, or_true]

/-- What a pattern covers that ends in a slash and a star is more than the path before them, and goes on
with a slash. -/
theorem Covers.below_stem (h : Covers (stem ++ "/*") resource) :
    ∃ rest, resource.toList = stem.toList ++ '/' :: rest := by
  cases h with
  | every hpattern =>
    have hlength := congrArg String.length hpattern
    rw [String.length_append] at hlength
    have htwo : "/*".length = 2 := rfl
    have hone : "*".length = 1 := rfl
    omega
  | itself hpattern =>
    refine ⟨['*'], ?_⟩
    rw [← hpattern, String.toList_append]
    rfl
  | below hpattern hbegins hproper =>
    next other =>
    have hsame := congrArg String.toList hpattern
    rw [String.toList_append, String.toList_append] at hsame
    rw [List.append_cancel_right hsame]
    exact liesBelow_iff_append.mp (liesBelow_iff.mpr ⟨hbegins, hproper⟩)

/-! ## Grants -/

/-- Whether a grant gives a principal an action on a resource. -/
structure Gives (g : Grant) (principal resource : String) (action : Action) : Prop where
  named : g.principal = "*" ∨ g.principal = principal
  covered : Covers g.resource resource
  listed : action ∈ g.actions

theorem gives_iff : g.gives principal resource action = true ↔ g.Gives principal resource action := by
  rw [gives, Bool.and_eq_true, Bool.and_eq_true, Bool.or_eq_true, beq_iff_eq, beq_iff_eq, covers_iff,
    List.contains_iff_mem]
  exact ⟨fun ⟨⟨hnamed, hcovered⟩, hlisted⟩ => ⟨hnamed, hcovered, hlisted⟩,
    fun h => ⟨⟨h.named, h.covered⟩, h.listed⟩⟩

/-- A grant on what lies below a path gives nothing else. -/
theorem gives_eq_false (hstem : g.resource = stem ++ "/*")
    (haside : ∀ rest, resource.toList ≠ stem.toList ++ '/' :: rest) :
    g.gives principal resource action = false := by
  refine Bool.eq_false_iff.mpr fun hgives => ?_
  have hcovers := (gives_iff.mp hgives).covered
  rw [hstem] at hcovers
  obtain ⟨rest, hrest⟩ := hcovers.below_stem
  exact haside rest hrest

end Grant

/-! ## Policies -/

namespace Policy

theorem allows_iff :
    p.allows principal resource action = true ↔ ∃ g ∈ p, g.Gives principal resource action := by
  simp only [allows, List.any_eq_true, Grant.gives_iff]

/-- What is allowed stays allowed where there are more grants. -/
theorem allows_of_subset (h : p ⊆ q) (hallowed : p.allows principal resource action = true) :
    q.allows principal resource action = true := by
  obtain ⟨g, hg, hgives⟩ := allows_iff.mp hallowed
  exact allows_iff.mpr ⟨g, h hg, hgives⟩

/-- Only which grants there are matters. -/
theorem allows_congr (h : ∀ g, g ∈ p ↔ g ∈ q) :
    p.allows principal resource action = q.allows principal resource action :=
  Bool.eq_iff_iff.mpr ⟨allows_of_subset fun g hg => (h g).mp hg, allows_of_subset fun g hg => (h g).mpr hg⟩

theorem authorize_eq_ok_iff :
    p.authorize principal resource action = .ok () ↔ ∃ g ∈ p, g.Gives principal resource action := by
  rw [← allows_iff, authorize]
  split
  next hallowed => exact ⟨fun _ => hallowed, fun _ => rfl⟩
  next hdenied => exact ⟨nofun, fun hallowed => absurd hallowed hdenied⟩

theorem check_eq_ok_iff :
    p.check resolve principal id action = .ok () ↔
      ∃ resource, resolve id = .ok resource ∧ ∃ g ∈ p, g.Gives principal resource action := by
  unfold check
  cases hresource : resolve id with
  | error f => exact ⟨nofun, fun ⟨_, heq, _⟩ => nomatch heq⟩
  | ok resource =>
    rw [authorize_eq_ok_iff]
    constructor
    · exact fun hgiven => ⟨resource, rfl, hgiven⟩
    · rintro ⟨other, heq, hgiven⟩
      exact Except.ok.inj heq ▸ hgiven

/-- Whoever is refused a resource that is there is told what was asked for. -/
theorem check_eq_denial (hresource : resolve id = .ok resource)
    (hnone : ¬ ∃ g ∈ p, g.Gives principal resource action) :
    p.check resolve principal id action =
      .error (.authorizationDenied (denial principal resource action)) := by
  have hdenied : p.allows principal resource action = false :=
    Bool.eq_false_iff.mpr fun hallowed => hnone (allows_iff.mp hallowed)
  simp only [check, hresource, authorize, hdenied, Bool.false_eq_true, ↓reduceIte]

end Policy

/-- A principal is let through to an inlet as to any resource that an id is resolved to. -/
theorem authorize_eq_check (s : Store) :
    s.authorize p principal id action = p.check s.resolve principal id action := rfl

/-! ## The rule -/

/-- **Nothing is allowed but what is granted.** A policy allows an action on a resource exactly if one of its
grants gives it. So only which grants there are matters, and more grants allow more. A grant on what lies
below a path gives nothing on the path itself, and nothing where another character than a slash follows the
path. Whoever asks for the resource of an id is let through exactly if there is one and some grant gives
the action on it, and is denied it if none does; so it is with the inlets of a store. -/
theorem only_what_is_granted :
    (∀ (p : Policy) (principal resource : String) (action : Action),
      p.allows principal resource action = true ↔ ∃ g ∈ p, g.Gives principal resource action) ∧
    (∀ (p q : Policy) (principal resource : String) (action : Action),
      ((∀ g, g ∈ p ↔ g ∈ q) →
        p.allows principal resource action = q.allows principal resource action) ∧
      (p ⊆ q → p.allows principal resource action = true →
        q.allows principal resource action = true)) ∧
    (∀ (g : Grant) (stem principal : String) (action : Action), g.resource = stem ++ "/*" →
      g.gives principal stem action = false ∧
      ∀ c more, c ≠ '/' → g.gives principal (stem ++ String.ofList (c :: more)) action = false) ∧
    (∀ (p : Policy) (resolve : String → Except Failure String) (principal id : String)
        (action : Action),
      (p.check resolve principal id action = .ok () ↔
        ∃ resource, resolve id = .ok resource ∧ ∃ g ∈ p, g.Gives principal resource action) ∧
      ∀ resource, resolve id = .ok resource → (¬ ∃ g ∈ p, g.Gives principal resource action) →
        p.check resolve principal id action =
          .error (.authorizationDenied (Policy.denial principal resource action))) ∧
    ∀ (p : Policy) (s : Store) (principal id : String) (action : Action),
      s.authorize p principal id action = p.check s.resolve principal id action := by
  refine ⟨fun _ _ _ _ => Policy.allows_iff,
    fun _ _ _ _ _ => ⟨Policy.allows_congr, Policy.allows_of_subset⟩,
    fun g stem principal action hstem => ⟨?_, fun c more hc => ?_⟩,
    fun _ _ _ _ _ => ⟨Policy.check_eq_ok_iff, fun _ => Policy.check_eq_denial⟩,
    fun _ s _ _ _ => authorize_eq_check s⟩
  · refine Grant.gives_eq_false hstem fun rest hrest => ?_
    exact List.cons_ne_nil '/' rest (List.self_eq_append_right.mp hrest)
  · refine Grant.gives_eq_false hstem fun rest hrest => hc ?_
    rw [String.toList_append, String.toList_ofList] at hrest
    exact (List.cons.inj (List.append_cancel_left hrest)).1

/-- Whoever may read what lies below a path may read neither the path nor what lies below its neighbour,
and may still read the same with one more grant. -/
theorem only_what_is_granted_neighbours :
    (⟨"ada", "/a/*", [.read]⟩ : Grant).gives "ada" "/a" .read = false ∧
    (⟨"ada", "/a/*", [.read]⟩ : Grant).gives "ada" "/ab/c" .read = false ∧
    Policy.allows [⟨"bob", "*", [.write]⟩, ⟨"ada", "/a/*", [.read]⟩] "ada" "/a/b" .read = true := by
  obtain ⟨-, hmore, hbelow, -⟩ := only_what_is_granted
  obtain ⟨hpath, hbehind⟩ := hbelow ⟨"ada", "/a/*", [.read]⟩ "/a" "ada" .read rfl
  refine ⟨hpath, hbehind 'b' ['/', 'c'] (by decide), ?_⟩
  exact (hmore [⟨"ada", "/a/*", [.read]⟩] _ "ada" "/a/b" .read).2 (List.subset_cons_self _ _) (by decide)

end InletRegistry.Access
