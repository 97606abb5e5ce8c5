/-!
# Blank characters

The characters with Unicode's `White_Space` property, and the trimming that goes with them. A name
that holds nothing but such characters counts as blank everywhere in the registry.

`trimsTo_iff` says what trimming leaves, `mem_trimList` that it invents nothing, and `isBlankText_iff`
that a text is blank exactly when nothing is left.
-/

namespace InletRegistry.Text

/-- Whether a character has Unicode's `White_Space` property. -/
def isBlank (c : Char) : Bool :=
  let n := c.toNat
  (9 ≤ n && n ≤ 13) || n == 0x20 || n == 0x85 || n == 0xA0 || n == 0x1680 ||
    (0x2000 ≤ n && n ≤ 0x200A) || n == 0x2028 || n == 0x2029 || n == 0x202F || n == 0x205F ||
    n == 0x3000

def trimList (cs : List Char) : List Char :=
  ((cs.dropWhile isBlank).reverse.dropWhile isBlank).reverse

def trim (s : String) : String := String.ofList (trimList s.toList)

/-- A text that holds blanks only, which the empty text does. -/
def isBlankText (s : String) : Bool := s.toList.all isBlank

/-- Trimming keeps characters of the text only. -/
theorem mem_trimList {c : Char} {cs : List Char} (h : c ∈ trimList cs) : c ∈ cs := by
  have h₁ : c ∈ (cs.dropWhile isBlank).reverse :=
    (List.dropWhile_sublist _).subset (List.mem_reverse.1 h)
  exact (List.dropWhile_sublist _).subset (List.mem_reverse.1 h₁)

/-- Nothing is left of a list of blanks, and of no other. -/
theorem trimList_eq_nil_iff {cs : List Char} : trimList cs = [] ↔ ∀ c ∈ cs, isBlank c := by
  constructor
  · intro h
    have h₁ : (cs.dropWhile isBlank).reverse.dropWhile isBlank = [] := List.reverse_eq_nil_iff.1 h
    have h₂ : ∀ c ∈ (cs.dropWhile isBlank).reverse, isBlank c := by
      intro c hc
      have hs := List.takeWhile_append_dropWhile (p := isBlank)
        (l := (cs.dropWhile isBlank).reverse)
      rw [h₁, List.append_nil] at hs
      rw [← hs] at hc
      have := List.all_takeWhile (p := isBlank) (l := (cs.dropWhile isBlank).reverse)
      exact List.all_eq_true.1 this c hc
    intro c hc
    rw [← List.takeWhile_append_dropWhile (p := isBlank) (l := cs)] at hc
    rcases List.mem_append.1 hc with hc | hc
    · exact List.all_eq_true.1 List.all_takeWhile c hc
    · exact h₂ c (List.mem_reverse.2 hc)
  · intro h
    have h₁ : cs.dropWhile isBlank = [] := by
      induction cs with
      | nil => rfl
      | cons c cs ih =>
        rw [List.dropWhile_cons, if_pos (h c List.mem_cons_self)]
        exact ih fun d hd => h d (List.mem_cons_of_mem _ hd)
    simp [trimList, h₁]

/-- What is left of a text without the blanks at its ends: blanks alone are missing around it, and it
neither begins nor ends with one. -/
structure TrimsTo (cs kept : List Char) : Prop where
  around : ∃ before behind, cs = before ++ kept ++ behind ∧ (∀ c ∈ before, isBlank c = true) ∧
    ∀ c ∈ behind, isBlank c = true
  first : ∀ c, kept.head? = some c → isBlank c = false
  last : ∀ c, kept.getLast? = some c → isBlank c = false

/-- Blanks are dropped up to the first character that is none. -/
theorem dropWhile_isBlank_append {before rest : List Char} (hbefore : ∀ c ∈ before, isBlank c = true)
    (hrest : ∀ c, rest.head? = some c → isBlank c = false) :
    (before ++ rest).dropWhile isBlank = rest := by
  rw [List.dropWhile_append_of_pos hbefore]
  cases rest with
  | nil => rfl
  | cons c rest =>
    exact List.dropWhile_cons_of_neg (by rw [hrest c rfl]; exact Bool.false_ne_true)

/-- Trimming leaves what is left without the blanks at the ends. -/
theorem trimsTo_trimList (cs : List Char) : TrimsTo cs (trimList cs) := by
  have hfront := List.takeWhile_append_dropWhile (p := isBlank) (l := cs)
  have hback := List.takeWhile_append_dropWhile (p := isBlank) (l := (cs.dropWhile isBlank).reverse)
  have hsplit : trimList cs ++ ((cs.dropWhile isBlank).reverse.takeWhile isBlank).reverse =
      cs.dropWhile isBlank := by
    rw [trimList, ← List.reverse_append, hback, List.reverse_reverse]
  refine ⟨⟨cs.takeWhile isBlank, ((cs.dropWhile isBlank).reverse.takeWhile isBlank).reverse, ?_, ?_, ?_⟩,
    fun c hc => ?_, fun c hc => ?_⟩
  · rw [List.append_assoc, hsplit, hfront]
  · exact fun c hc => List.all_eq_true.mp List.all_takeWhile c hc
  · exact fun c hc => List.all_eq_true.mp List.all_takeWhile c (List.mem_reverse.mp hc)
  · have hhead : (cs.dropWhile isBlank).head? = some c := by rw [← hsplit, List.head?_append, hc]; rfl
    have hstop := List.head?_dropWhile_not isBlank cs
    rw [hhead] at hstop
    exact hstop
  · rw [trimList, List.getLast?_reverse] at hc
    have hstop := List.head?_dropWhile_not isBlank (cs.dropWhile isBlank).reverse
    rw [hc] at hstop
    exact hstop

/-- **A text is trimmed in one way.** -/
theorem trimsTo_iff {cs kept : List Char} : TrimsTo cs kept ↔ trimList cs = kept := by
  refine ⟨fun h => ?_, fun h => h ▸ trimsTo_trimList cs⟩
  obtain ⟨before, behind, rfl, hbefore, hbehind⟩ := h.around
  cases kept with
  | nil =>
    refine trimList_eq_nil_iff.mpr fun c hc => ?_
    rw [List.append_nil] at hc
    exact (List.mem_append.mp hc).elim (hbefore c) (hbehind c)
  | cons d ds =>
    have hfront : (before ++ d :: ds ++ behind).dropWhile isBlank = d :: ds ++ behind := by
      rw [List.append_assoc]
      exact dropWhile_isBlank_append hbefore fun c hc => h.first c hc
    have hback : (d :: ds ++ behind).reverse.dropWhile isBlank = (d :: ds).reverse := by
      rw [List.reverse_append]
      refine dropWhile_isBlank_append (fun c hc => hbehind c (List.mem_reverse.mp hc)) fun c hc => ?_
      rw [List.head?_reverse] at hc
      exact h.last c hc
    rw [trimList, hfront, hback, List.reverse_reverse]

/-- Blanks around characters that are none are all that is trimmed. -/
theorem trimList_append {before cs behind : List Char} (hbefore : ∀ c ∈ before, isBlank c = true)
    (hcs : ∀ c ∈ cs, isBlank c = false) (hbehind : ∀ c ∈ behind, isBlank c = true) :
    trimList (before ++ cs ++ behind) = cs :=
  trimsTo_iff.mp ⟨⟨before, behind, rfl, hbefore, hbehind⟩,
    fun c hc => hcs c (List.mem_of_mem_head? hc), fun c hc => hcs c (List.mem_of_getLast? hc)⟩

/-- A text is blank exactly when trimming leaves nothing of it. -/
theorem isBlankText_iff {s : String} : isBlankText s = true ↔ trimList s.toList = [] := by
  rw [trimList_eq_nil_iff, isBlankText, List.all_eq_true]

end InletRegistry.Text
