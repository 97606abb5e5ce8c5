import InletRegistry.Text.Pieces
import Mathlib.Data.List.TakeWhile

/-!
# Pieces, segments and lines

A base is compared with a path character by character, up to the end of the path or to one of its
slashes. That is to say that the base's segments begin those of the path (`reaches_iff`): a base never
ends within a segment.

Behind a line feed a text is read afresh (`lines_append`): what is written behind lines that have ended
adds its own lines to theirs and changes none of them.
-/

namespace InletRegistry.Text

variable {base path : String}

/-- The pieces of a text are what it is split into at the separator. -/
theorem pieces_eq_splitOn (separator : Char) (cs : List Char) :
    pieces separator cs = cs.splitOn separator := by
  induction cs with
  | nil => exact (List.splitOn_nil separator).symm
  | cons c cs ih =>
    rw [List.splitOn_cons_eq_if_modifyHead, ← ih, pieces]
    by_cases hc : c = separator
    · simp only [hc, ↓reduceIte, BEq.rfl]
    · simp only [hc, ↓reduceIte, beq_eq_false_iff_ne.mpr hc, Bool.false_eq_true]
      cases hpieces : pieces separator cs with
      | nil => exact absurd hpieces (pieces_ne_nil separator cs)
      | cons s more => rfl

/-- The pieces of a text that goes on behind a separator. -/
theorem pieces_append (separator : Char) (front rest : List Char) :
    pieces separator (front ++ separator :: rest) = pieces separator front ++ pieces separator rest := by
  simp only [pieces_eq_splitOn]
  exact List.splitOnP_append_cons front rest BEq.rfl

/-- A text is its pieces with the separator between them. -/
theorem intercalate_pieces (separator : Char) (cs : List Char) :
    [separator].intercalate (pieces separator cs) = cs := by
  rw [pieces_eq_splitOn, List.intercalate_splitOn]

/-- What has no separator in it goes to the first piece of the text that it stands in front of. -/
theorem pieces_of_not_mem_append {separator : Char} {front : List Char} (h : separator ∉ front)
    (rest : List Char) : ∃ s more, pieces separator rest = s :: more ∧
      pieces separator (front ++ rest) = (front ++ s) :: more := by
  induction front with
  | nil =>
    cases hpieces : pieces separator rest with
    | nil => exact absurd hpieces (pieces_ne_nil separator rest)
    | cons s more => exact ⟨s, more, rfl, hpieces⟩
  | cons c front ih =>
    obtain ⟨s, more, hrest, hfront⟩ := ih fun hmem => h (List.mem_cons_of_mem c hmem)
    have hc : c ≠ separator := fun heq => h (heq ▸ List.mem_cons_self)
    refine ⟨s, more, hrest, ?_⟩
    rw [List.cons_append, pieces, if_neg hc, hfront]
    rfl

/-- A text without a separator is a single piece. -/
theorem pieces_of_not_mem {separator : Char} {cs : List Char} (h : separator ∉ cs) :
    pieces separator cs = [cs] := by
  obtain ⟨s, more, hnil, hpieces⟩ := pieces_of_not_mem_append h []
  obtain ⟨rfl, rfl⟩ := List.cons.inj hnil
  rwa [List.append_nil] at hpieces

/-- A text whose characters are rewritten, but for the separator, is rewritten piece by piece. -/
theorem pieces_flatMap {separator : Char} {f : Char → List Char} (hkept : f separator = [separator])
    (hother : ∀ c, c ≠ separator → separator ∉ f c) (cs : List Char) :
    pieces separator (cs.flatMap f) = (pieces separator cs).map (·.flatMap f) := by
  induction cs with
  | nil => rfl
  | cons c cs ih =>
    by_cases hc : c = separator
    · subst hc
      rw [List.flatMap_cons, hkept, List.singleton_append, pieces, if_pos rfl, ih, pieces, if_pos rfl]
      rfl
    · obtain ⟨s, more, hrest, hpieces⟩ := pieces_of_not_mem_append (hother c hc) (cs.flatMap f)
      rw [List.flatMap_cons, hpieces, pieces, if_neg hc]
      rw [ih] at hrest
      obtain ⟨p, ps, hps, rfl, rfl⟩ := List.map_eq_cons_iff.mp hrest
      simp only [hps, List.map_cons, List.flatMap_cons]

/-- Texts that are put together with a separator in front of each are the pieces behind an empty one. -/
theorem pieces_flatMap_cons {separator : Char} {f : List Char → List Char} {texts : List (List Char)}
    (h : ∀ s ∈ texts, separator ∉ f s) :
    pieces separator (texts.flatMap fun s => separator :: f s) = [] :: texts.map f := by
  induction texts with
  | nil => rfl
  | cons s texts ih =>
    obtain ⟨first, more, hrest, hpieces⟩ :=
      pieces_of_not_mem_append (h s List.mem_cons_self) (texts.flatMap fun s => separator :: f s)
    rw [ih fun s hs => h s (List.mem_cons_of_mem _ hs)] at hrest
    obtain ⟨rfl, rfl⟩ := List.cons.inj hrest
    rw [List.flatMap_cons, List.cons_append, pieces, if_pos rfl, hpieces, List.append_nil, List.map_cons]

/-- A separator has no part in a piece. -/
theorem not_mem_of_mem_pieces {separator : Char} {cs s : List Char} (h : s ∈ pieces separator cs) :
    separator ∉ s := by
  induction cs generalizing s with
  | nil =>
    rw [List.mem_singleton.mp h]
    exact List.not_mem_nil
  | cons c cs ih =>
    rw [pieces] at h
    split at h
    next =>
      rcases List.mem_cons.mp h with rfl | hmore
      · exact List.not_mem_nil
      · exact ih hmore
    next hc =>
      cases hpieces : pieces separator cs with
      | nil => exact absurd hpieces (pieces_ne_nil separator cs)
      | cons p ps =>
        rw [hpieces] at h ih
        rcases List.mem_cons.mp h with rfl | hmore
        · intro hmem
          rcases List.mem_cons.mp hmem with heq | hp
          · exact hc heq.symm
          · exact ih List.mem_cons_self hp
        · exact ih (List.mem_cons_of_mem p hmore)

/-- There is nothing in a text but its pieces and the separator. -/
theorem mem_pieces_of_mem (separator : Char) {cs : List Char} {c : Char} (h : c ∈ cs) :
    c = separator ∨ ∃ s ∈ pieces separator cs, c ∈ s := by
  induction cs with
  | nil => cases h
  | cons d cs ih =>
    rw [pieces]
    by_cases hd : d = separator
    · rw [if_pos hd]
      rcases List.mem_cons.mp h with rfl | hrest
      · exact Or.inl hd
      · rcases ih hrest with heq | ⟨s, hs, hc⟩
        · exact Or.inl heq
        · exact Or.inr ⟨s, List.mem_cons_of_mem _ hs, hc⟩
    · rw [if_neg hd]
      cases hpieces : pieces separator cs with
      | nil => exact absurd hpieces (pieces_ne_nil separator cs)
      | cons p ps =>
        rcases List.mem_cons.mp h with rfl | hrest
        · exact Or.inr ⟨c :: p, List.mem_cons_self, List.mem_cons_self⟩
        · rcases ih hrest with heq | ⟨s, hs, hc⟩
          · exact Or.inl heq
          · rw [hpieces] at hs
            rcases List.mem_cons.mp hs with rfl | hs
            · exact Or.inr ⟨d :: s, List.mem_cons_self, List.mem_cons_of_mem d hc⟩
            · exact Or.inr ⟨s, List.mem_cons_of_mem _ hs, hc⟩

/-- Pieces that are joined in two parts are joined with a separator between the parts. -/
theorem intercalate_append (separator : Char) {front rest : List (List Char)} (hfront : front ≠ [])
    (hrest : rest ≠ []) :
    [separator].intercalate (front ++ rest) =
      [separator].intercalate front ++ separator :: [separator].intercalate rest := by
  induction front with
  | nil => exact absurd rfl hfront
  | cons s front ih =>
    cases front with
    | nil =>
      rw [List.singleton_append, List.intercalate_cons_of_ne_nil hrest, List.intercalate_singleton,
        List.append_assoc, List.singleton_append]
    | cons s' front =>
      have hmore : s' :: front ++ rest ≠ [] := List.cons_ne_nil s' (front ++ rest)
      rw [List.cons_append, List.intercalate_cons_of_ne_nil hmore, ih (List.cons_ne_nil s' front),
        List.intercalate_cons_cons, List.append_assoc _ _ (separator :: _)]

/-- Slashes at the end are all that is dropped. -/
theorem dropFinalSlashes_append {front more : List Char} {c : Char} (hc : c ≠ '/') :
    dropFinalSlashes (String.ofList (front ++ c :: more)) =
      String.ofList (front ++ c :: (dropFinalSlashes (String.ofList more)).toList) := by
  have hreverse : (front ++ c :: more).reverse = more.reverse ++ c :: front.reverse := by
    rw [List.reverse_append, List.reverse_cons, List.append_assoc, List.singleton_append]
  simp only [dropFinalSlashes, String.toList_ofList, hreverse, List.dropWhile_append]
  split
  next hnone =>
    rw [List.dropWhile_cons_of_neg (by simpa using hc), List.isEmpty_iff.mp hnone, List.reverse_cons,
      List.reverse_reverse, List.reverse_nil]
  next =>
    rw [List.reverse_append, List.reverse_cons, List.reverse_reverse, List.append_assoc,
      List.singleton_append]

theorem dropFinalSlashes_of_slashes {cs : List Char} (h : ∀ c ∈ cs, c = '/') :
    dropFinalSlashes (String.ofList cs) = "" := by
  have hslashes : ∀ c ∈ cs.reverse, decide (c = '/') = true := fun c hc =>
    decide_eq_true (h c (List.mem_reverse.mp hc))
  rw [dropFinalSlashes, String.toList_ofList, List.dropWhile_eq_nil_iff.mpr hslashes]
  rfl

theorem mem_of_mem_dropFinalSlashes {s : String} {c : Char} (h : c ∈ (dropFinalSlashes s).toList) :
    c ∈ s.toList := by
  rw [dropFinalSlashes, String.toList_ofList, List.mem_reverse] at h
  exact List.mem_reverse.mp ((List.dropWhile_suffix _).subset h)

/-- A base is the path, or a slash follows it there. -/
theorem reaches_iff_eq_or :
    reaches base path = true ↔
      path.toList = base.toList ∨ ∃ rest, path.toList = base.toList ++ '/' :: rest := by
  unfold reaches
  constructor
  · intro h
    split at h
    next hafter => exact Or.inl ((after?_eq_some_iff.mp hafter).trans (List.append_nil _))
    next rest hafter => exact Or.inr ⟨rest, after?_eq_some_iff.mp hafter⟩
    next => cases h
  · rintro (heq | ⟨rest, heq⟩)
    · have hafter : after? base.toList path.toList = some [] :=
        after?_eq_some_iff.mpr (heq.trans (List.append_nil _).symm)
      simp only [hafter]
    · simp only [after?_eq_some_iff.mpr heq]

/-- The segments of a base begin those of a path if the base is the path, or a slash follows it there. -/
theorem prefix_segments_iff {base path : List Char} :
    segments base <+: segments path ↔ path = base ∨ ∃ rest, path = base ++ '/' :: rest := by
  constructor
  · rintro ⟨more, hmore⟩
    have hpath : path = ['/'].intercalate (segments base ++ more) := by
      rw [hmore, segments, intercalate_pieces]
    cases more with
    | nil =>
      rw [List.append_nil, segments, intercalate_pieces] at hpath
      exact Or.inl hpath
    | cons s more =>
      rw [intercalate_append '/' (segments_ne_nil _) (List.cons_ne_nil s more), segments,
        intercalate_pieces] at hpath
      exact Or.inr ⟨_, hpath⟩
  · rintro (rfl | ⟨rest, rfl⟩)
    · exact List.prefix_rfl
    · rw [segments, pieces_append]
      exact List.prefix_append _ _

/-- **A base never ends within a segment.** It reaches to the end of the path or to one of its slashes
exactly if its segments begin the path's. -/
theorem reaches_iff : reaches base path = true ↔ segments base.toList <+: segments path.toList :=
  reaches_iff_eq_or.trans prefix_segments_iff.symm

theorem liesBelow_iff_append {base path : List Char} :
    liesBelow base path = true ↔ ∃ rest, path = base ++ '/' :: rest := by
  unfold liesBelow
  constructor
  · intro h
    split at h
    next rest hafter => exact ⟨rest, after?_eq_some_iff.mp hafter⟩
    next => cases h
  · rintro ⟨rest, hpath⟩
    simp only [after?_eq_some_iff.mpr hpath]

/-- **A path lies below a base** exactly if the base's segments begin its own and are not all of them. -/
theorem liesBelow_iff {base path : List Char} :
    liesBelow base path = true ↔ segments base <+: segments path ∧ segments base ≠ segments path := by
  rw [liesBelow_iff_append]
  constructor
  · rintro ⟨rest, rfl⟩
    refine ⟨prefix_segments_iff.mpr (Or.inr ⟨rest, rfl⟩), fun heq => ?_⟩
    rw [segments, pieces_append, List.self_eq_append_right] at heq
    exact segments_ne_nil rest heq
  · rintro ⟨hbegins, hne⟩
    rcases prefix_segments_iff.mp hbegins with rfl | hrest
    · exact absurd rfl hne
    · exact hrest

/-! ## Lines -/

section Lines

variable {line : List Char}

theorem dropReturn_of_not_mem (h : '\r' ∉ line) : dropReturn line = line := by
  unfold dropReturn
  split
  next front hreverse =>
    have hmem : '\r' ∈ line.reverse := hreverse ▸ List.mem_cons_self
    exact absurd (List.mem_reverse.mp hmem) h
  next => rfl

theorem linesOf_append {rest : List (List Char)} (hrest : rest ≠ []) (front : List (List Char)) :
    linesOf (front ++ rest) = front.map dropReturn ++ linesOf rest := by
  induction front with
  | nil => rfl
  | cons s front ih =>
    have hmore : front ++ rest ≠ [] := List.append_ne_nil_of_right_ne_nil front hrest
    rw [List.cons_append, linesOf, ih, List.map_cons, List.cons_append]
    exact hmore

/-- **Behind a line feed a text is read afresh.** -/
theorem lines_append (front rest : List Char) :
    lines (front ++ '\n' :: rest) = lines (front ++ ['\n']) ++ lines rest := by
  have hnil : linesOf (pieces '\n' []) = [] := rfl
  simp only [lines, pieces_append, linesOf_append (pieces_ne_nil '\n' _), hnil, List.append_nil]

/-- A text without the characters that end lines is a line of its own. -/
theorem lines_singleton (hfeed : '\n' ∉ line) (hreturn : '\r' ∉ line) : lines (line ++ ['\n']) = [line] := by
  rw [lines, pieces_append, pieces_of_not_mem hfeed, linesOf_append (pieces_ne_nil '\n' _), List.map_cons,
    dropReturn_of_not_mem hreturn]
  rfl

end Lines

end InletRegistry.Text
