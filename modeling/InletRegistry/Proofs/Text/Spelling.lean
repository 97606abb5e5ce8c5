import InletRegistry.Proofs.Text.Percent

/-!
# Texts of characters and escapes

A text is spelled in some characters if it has these, and where it has a percent sign, an escape. In such
a text every percent sign begins an escape (`Spelled.digits`), so a reader of escapes never meets one that
it has to leave alone. What octets are written as is spelled in the characters that stand for themselves
(`spelled_encodeOctets`).
-/

namespace InletRegistry.Text

open InletRegistry.Text.Percent

/-- A text of some characters and of escapes. -/
inductive Spelled (may : Char → Bool) : List Char → Prop where
  | nil : Spelled may []
  | plain {c : Char} {cs : List Char} (hpercent : c ≠ '%') (hmay : may c = true)
    (hrest : Spelled may cs) : Spelled may (c :: cs)
  | escape {high low : Char} {cs : List Char} (hhigh : (Hex.digit? high).isSome = true)
    (hlow : (Hex.digit? low).isSome = true) (hrest : Spelled may cs) :
    Spelled may ('%' :: high :: low :: cs)

namespace Spelled

variable {may : Char → Bool} {cs ds front rest : List Char} {c : Char}

theorem append (hcs : Spelled may cs) (hds : Spelled may ds) : Spelled may (cs ++ ds) := by
  induction hcs with
  | nil => exact hds
  | plain hpercent hmay _ ih => exact .plain hpercent hmay ih
  | escape hhigh hlow _ ih => exact .escape hhigh hlow ih

/-- There is nothing else in the text. -/
theorem mem (h : Spelled may cs) (hc : c ∈ cs) :
    may c = true ∨ c = '%' ∨ (Hex.digit? c).isSome = true := by
  induction h with
  | nil => cases hc
  | plain _ hmay _ ih =>
    rcases List.mem_cons.mp hc with rfl | hrest
    · exact Or.inl hmay
    · exact ih hrest
  | escape hhigh hlow _ ih =>
    rcases List.mem_cons.mp hc with rfl | hdigits
    · exact Or.inr (Or.inl rfl)
    · rcases List.mem_cons.mp hdigits with rfl | hlast
      · exact Or.inr (Or.inr hhigh)
      · rcases List.mem_cons.mp hlast with rfl | hrest
        · exact Or.inr (Or.inr hlow)
        · exact ih hrest

/-- What neither may stand in a text nor is part of an escape does not stand there. -/
theorem not_mem (h : Spelled may cs) (hmay : may c = false) (hpercent : c ≠ '%')
    (hdigit : Hex.digit? c = none) : c ∉ cs := by
  intro hmem
  rcases h.mem hmem with hplain | heq | hsome
  · rw [hmay] at hplain
    cases hplain
  · exact hpercent heq
  · rw [hdigit] at hsome
    cases hsome

theorem ne_percent_of_digit (h : (Hex.digit? c).isSome = true) : c ≠ '%' := by
  rintro rfl
  cases h

/-- **Every percent sign begins an escape.** -/
theorem digits (h : Spelled may (front ++ '%' :: rest)) :
    ∃ high low more, rest = high :: low :: more ∧ (Hex.digit? high).isSome = true ∧
      (Hex.digit? low).isSome = true := by
  generalize htext : front ++ '%' :: rest = text at h
  induction h generalizing front with
  | nil => cases List.append_eq_nil_iff.mp htext |>.2
  | plain hpercent _ _ ih =>
    cases front with
    | nil =>
      obtain ⟨heq, -⟩ := List.cons.inj htext
      exact absurd heq.symm hpercent
    | cons c front =>
      obtain ⟨-, hrest⟩ := List.cons.inj htext
      exact ih hrest
  | @escape high low cs hhigh hlow _ ih =>
    -- The percent sign is the escape's own, or it stands behind the escape: digits are none.
    rcases front with _ | ⟨_, _ | ⟨_, _ | ⟨_, front⟩⟩⟩
    · obtain ⟨-, rfl⟩ := List.cons.inj htext
      exact ⟨high, low, cs, rfl, hhigh, hlow⟩
    · obtain ⟨-, hrest⟩ := List.cons.inj htext
      obtain ⟨heq, -⟩ := List.cons.inj hrest
      exact absurd heq.symm (ne_percent_of_digit hhigh)
    · obtain ⟨-, hrest⟩ := List.cons.inj htext
      obtain ⟨-, hlast⟩ := List.cons.inj hrest
      obtain ⟨heq, -⟩ := List.cons.inj hlast
      exact absurd heq.symm (ne_percent_of_digit hlow)
    · obtain ⟨-, hrest⟩ := List.cons.inj htext
      obtain ⟨-, hlast⟩ := List.cons.inj hrest
      obtain ⟨-, hbehind⟩ := List.cons.inj hlast
      exact ih hbehind

/-- A text without a percent sign is spelled in its own characters. -/
theorem of_all (h : cs.all (fun c => c != '%' && may c) = true) : Spelled may cs := by
  induction cs with
  | nil => exact .nil
  | cons c cs ih =>
    rw [List.all_cons, Bool.and_eq_true, Bool.and_eq_true, bne_iff_ne] at h
    apply Spelled.plain h.1.1 h.1.2
    exact ih h.2

end Spelled

namespace Percent

variable {safe : UInt8 → Bool} {may : Char → Bool}

/-- An escape is an escape. -/
theorem spelled_escape (b : UInt8) : Spelled may (escape b) := by
  have hb := b.toNat_lt
  apply Spelled.escape
  · rw [Hex.digit?_upper (by omega)]
    rfl
  · rw [Hex.digit?_upper (by omega)]
    rfl
  · exact .nil

/-- What octets are written as is spelled in the characters that stand for themselves. -/
theorem spelled_encodeOctets {bs : List UInt8}
    (h : ∀ b ∈ bs, safe b = true → Char.ofNat b.toNat ≠ '%' ∧ may (Char.ofNat b.toNat) = true) :
    Spelled may (encodeOctets safe bs) := by
  induction bs with
  | nil => exact .nil
  | cons b bs ih =>
    rw [encodeOctets, List.flatMap_cons]
    apply Spelled.append
    · by_cases hsafe : safe b = true
      · obtain ⟨hpercent, hmay⟩ := h b List.mem_cons_self hsafe
        rw [if_pos hsafe]
        exact .plain hpercent hmay .nil
      · rw [if_neg hsafe]
        exact spelled_escape b
    · exact ih fun d hd => h d (List.mem_cons_of_mem b hd)

end Percent

end InletRegistry.Text
