/-!
# Courses of events

What a state becomes under one event after another, where an event may be impossible. A course is
given by the function that takes one event; what holds at the start and is kept by every possible
event holds wherever a course leads. `Leads` says that some course, of events of one sort, leads from
one state to another.
-/

namespace InletRegistry

variable {σ ε : Type}

/-- Takes events one after another; nothing comes of it if one is impossible where it is due. -/
def course? (next? : σ → ε → Option σ) (s : σ) : List ε → Option σ
  | [] => some s
  | e :: es => (next? s e).bind fun s => course? next? s es

variable {next? : σ → ε → Option σ} {s t u : σ} {es fs : List ε} {e : ε}

/-- A course in two parts. -/
theorem course?_append :
    course? next? s (es ++ fs) = (course? next? s es).bind fun t => course? next? t fs := by
  induction es generalizing s with
  | nil => rfl
  | cons e es ih =>
    simp only [List.cons_append, course?]
    cases next? s e with
    | none => rfl
    | some t => exact ih

/-- A course that goes on with one more event. -/
theorem course?_concat (h : course? next? s es = some t) (he : next? t e = some u) :
    course? next? s (es ++ [e]) = some u := by
  simp only [course?_append, h, Option.bind_some, course?, he]

/-- The part of a course up to some event leads somewhere too. -/
theorem course?_split (h : course? next? s (es ++ fs) = some u) :
    ∃ t, course? next? s es = some t ∧ course? next? t fs = some u := by
  rw [course?_append] at h
  exact Option.bind_eq_some_iff.mp h

/-- What holds of the empty course, and goes over from every course to the one with one more event,
holds of every course. -/
theorem course?_induction {P : List ε → σ → Prop} (start : P [] s)
    (step : ∀ es t e u, course? next? s es = some t → P es t → next? t e = some u →
      P (es ++ [e]) u)
    (h : course? next? s es = some t) : P es t := by
  -- The induction is on what is still to come, so the part that lies behind has to be carried along.
  suffices rest : ∀ (fs gs : List ε) (u : σ), course? next? s gs = some u → P gs u →
      course? next? u fs = some t → P (gs ++ fs) t from
    rest es [] s rfl start h
  intro fs
  induction fs with
  | nil =>
    intro gs u _ hu hend
    cases hend
    simpa only [List.append_nil] using hu
  | cons e fs ih =>
    intro gs u hgs hu hend
    obtain ⟨v, hv, hrest⟩ := Option.bind_eq_some_iff.mp hend
    have := ih (gs ++ [e]) v (course?_concat hgs hv) (step gs u e v hgs hu hv) hrest
    simpa only [List.append_assoc, List.cons_append, List.nil_append] using this

/-- What holds at the start and is kept by every event holds wherever a course leads. -/
theorem course?_invariant {P : σ → Prop} (start : P s)
    (step : ∀ t e u, P t → next? t e = some u → P u) (h : course? next? s es = some t) : P t :=
  course?_induction (P := fun _ t => P t) start (fun _ t e u _ ht he => step t e u ht he) h

/-- That a course of events of one sort leads from one state to another. -/
def Leads (next? : σ → ε → Option σ) (P : ε → Prop) (s t : σ) : Prop :=
  ∃ es, (∀ e ∈ es, P e) ∧ course? next? s es = some t

namespace Leads

variable {P Q : ε → Prop}

/-- The empty course leads nowhere else. -/
theorem refl (next? : σ → ε → Option σ) (P : ε → Prop) (s : σ) : Leads next? P s s :=
  ⟨[], fun _ he => absurd he List.not_mem_nil, rfl⟩

/-- One course goes on where another ended. -/
theorem trans (h : Leads next? P s t) (g : Leads next? P t u) : Leads next? P s u := by
  obtain ⟨es, hes, hfirst⟩ := h
  obtain ⟨fs, hfs, hsecond⟩ := g
  refine ⟨es ++ fs, ?_, ?_⟩
  · intro e he
    rcases List.mem_append.mp he with he | he
    · exact hes e he
    · exact hfs e he
  · rw [course?_append, hfirst]
    exact hsecond

/-- A course of one event. -/
theorem of_next (he : next? s e = some t) (hP : P e) : Leads next? P s t := by
  refine ⟨[e], ?_, ?_⟩
  · intro e' he'
    rw [List.mem_singleton.mp he']
    exact hP
  · rw [course?, he]
    rfl

/-- A course of one sort is of every wider sort. -/
theorem mono (h : Leads next? P s t) (hPQ : ∀ e, P e → Q e) : Leads next? Q s t := by
  obtain ⟨es, hes, hrun⟩ := h
  exact ⟨es, fun e he => hPQ e (hes e he), hrun⟩

/-- A course of one system is one of another system if every event of it is. -/
theorem map {τ δ : Type} {step? : τ → δ → Option τ} {R : δ → Prop} (f : σ → τ)
    (hstep : ∀ s e t, P e → next? s e = some t → Leads step? R (f s) (f t))
    (h : Leads next? P s t) : Leads step? R (f s) (f t) := by
  obtain ⟨es, hes, hrun⟩ := h
  induction es generalizing s with
  | nil =>
    cases hrun
    exact refl step? R _
  | cons e es ih =>
    obtain ⟨u, he, hrest⟩ := Option.bind_eq_some_iff.mp hrun
    exact (hstep s e u (hes e List.mem_cons_self) he).trans
      (ih (fun e' he' => hes e' (List.mem_cons_of_mem e he')) hrest)

end Leads

end InletRegistry
