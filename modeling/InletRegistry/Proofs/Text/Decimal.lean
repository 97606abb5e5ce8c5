import InletRegistry.Text.Digits
import Mathlib.Data.Nat.Digits.Defs

/-!
# Which texts are numerals

A numeral has a digit of ASCII at least and nothing but such digits, with or without one plus sign in
front. Its number is told by the places of its digits, however many there are; zeros in front add nothing.
Reading takes the numerals of numbers up to a limit and no other text (`natural?_eq_some_iff`), so what a
text is taken for does not depend on how long it is. A number that is written has digits only, the first of
which is a zero only for zero itself, and is read as the number.
-/

namespace InletRegistry.Text.Decimal

variable {c : Char} {cs ds : List Char} {n m limit : Nat}

/-- Digits, and the number that they have by their places. -/
structure Spells (ds : List Char) (n : Nat) : Prop where
  nonempty : ds ≠ []
  digits : ∀ c ∈ ds, '0' ≤ c ∧ c ≤ '9'
  places : n = Nat.ofDigits 10 (ds.reverse.map fun c => c.toNat - '0'.toNat)

/-- A numeral and its number. -/
inductive Numeral : List Char → Nat → Prop where
  | bare {ds : List Char} {n : Nat} (h : Spells ds n) : Numeral ds n
  | signed {ds : List Char} {n : Nat} (h : Spells ds n) : Numeral ('+' :: ds) n

/-- What is read digit by digit is what the places say. -/
theorem value_eq_ofDigits (cs : List Char) :
    value cs = Nat.ofDigits 10 (cs.reverse.map fun c => c.toNat - '0'.toNat) := by
  rw [Nat.ofDigits_eq_foldr, List.foldr_map, List.foldr_reverse, value]
  congr 1
  funext n c
  rw [digitValue, Nat.cast_id, Nat.mul_comm, Nat.add_comm]

/-- A zero in front adds nothing. -/
theorem Spells.cons_zero (h : Spells ds n) : Spells ('0' :: ds) n where
  nonempty := List.cons_ne_nil _ _
  digits c hc := by
    rcases List.mem_cons.mp hc with rfl | hc
    · decide
    · exact h.digits c hc
  places := by
    rw [← value_eq_ofDigits, h.places, ← value_eq_ofDigits, value, value, List.foldl_cons]
    rfl

theorem plain?_eq_some_iff : plain? cs = some n ↔ Spells cs n := by
  have hdigits : cs.all isDigit = true ↔ ∀ c ∈ cs, '0' ≤ c ∧ c ≤ '9' := by
    simp only [List.all_eq_true, isDigit, Bool.and_eq_true, decide_eq_true_eq]
  unfold plain?
  constructor
  · intro h
    split at h
    next hplain =>
      exact ⟨hplain.1, hdigits.mp hplain.2, (Option.some.inj h).symm.trans (value_eq_ofDigits cs)⟩
    next => cases h
  · intro h
    rw [if_pos ⟨h.nonempty, hdigits.mpr h.digits⟩, value_eq_ofDigits, h.places]

/-- Digits do not begin with a sign. -/
theorem not_spells_plus : ¬ Spells ('+' :: ds) n := fun h =>
  absurd (h.digits '+' List.mem_cons_self) (by decide)

/-- A numeral has one number. -/
theorem Numeral.unique (hn : Numeral cs n) (hm : Numeral cs m) : n = m := by
  cases hn with
  | bare hn =>
    cases hm with
    | bare hm => exact hn.places.trans hm.places.symm
    | signed hm => exact absurd hn not_spells_plus
  | signed hn =>
    cases hm with
    | bare hm => exact absurd hm not_spells_plus
    | signed hm => exact hn.places.trans hm.places.symm

/-- A sign is passed over, -/
theorem natural?_signed (limit : Nat) (ds : List Char) :
    natural? limit ('+' :: ds) = (plain? ds).filter (· ≤ limit) := by
  unfold natural?
  simp only
  cases plain? ds with
  | none => rfl
  | some n => simp only [Option.filter, decide_eq_true_eq]

/-- and without one all has to be digits. -/
theorem natural?_bare (limit : Nat) (h : cs.head? ≠ some '+') :
    natural? limit cs = (plain? cs).filter (· ≤ limit) := by
  cases cs with
  | nil => rfl
  | cons c cs =>
    -- By this `simp` passes the pattern with the sign over.
    have hsign : ∀ ds, c :: cs = '+' :: ds → False := fun ds hcons => h (by rw [hcons]; rfl)
    simp only [natural?]
    cases plain? (c :: cs) with
    | none => rfl
    | some n => simp only [Option.filter, decide_eq_true_eq]

/-- **Numerals are what is read**, up to the limit. -/
theorem natural?_eq_some_iff : natural? limit cs = some n ↔ Numeral cs n ∧ n ≤ limit := by
  by_cases hplus : cs.head? = some '+'
  · obtain ⟨ds, rfl⟩ := List.head?_eq_some_iff.mp hplus
    rw [natural?_signed, Option.filter_eq_some_iff, plain?_eq_some_iff, decide_eq_true_eq]
    refine and_congr_left fun _ => ⟨.signed, fun h => ?_⟩
    cases h with
    | bare h => exact absurd h not_spells_plus
    | signed h => exact h
  · rw [natural?_bare limit hplus, Option.filter_eq_some_iff, plain?_eq_some_iff, decide_eq_true_eq]
    refine and_congr_left fun _ => ⟨.bare, fun h => ?_⟩
    cases h with
    | bare h => exact h
    | signed h => exact absurd rfl hplus

/-! ## Numbers that are written -/

theorem isDigit_of_mem_digits (hc : c ∈ digits n) : isDigit c = true := by
  have hdigit := Nat.isDigit_of_mem_toDigits (by decide) (Nat.le_refl 10) hc
  simp only [Char.isDigit, Bool.and_eq_true, decide_eq_true_eq] at hdigit
  simp only [isDigit, Bool.and_eq_true, decide_eq_true_eq]
  exact hdigit

theorem value_digits (n : Nat) : value (digits n) = n := by
  have hread := Nat.ofDigitChars_toDigits (b := 10) (n := n) (by decide) (Nat.le_refl 10)
  simp only [Nat.ofDigitChars, Nat.mul_comm 10] at hread
  exact hread

/-- A number but zero does not begin with a zero. -/
theorem digits_of_pos (hn : 0 < n) : ∃ c rest, digits n = c :: rest ∧ c ≠ '0' := by
  induction n using Nat.strongRecOn with
  | ind n ih =>
    by_cases hsmall : n < 10
    · refine ⟨n.digitChar, [], Nat.toDigits_of_lt_base hsmall, ?_⟩
      rw [ne_eq, Nat.digitChar_eq_zero]
      omega
    · obtain ⟨c, rest, hdigits, hc⟩ := ih (n / 10) (by omega) (by omega)
      have hsplit := Nat.toDigits_of_base_le (b := 10) (n := n) (by decide) (by omega)
      refine ⟨c, rest ++ [(n % 10).digitChar], ?_, hc⟩
      rw [digits] at hdigits ⊢
      rw [hsplit, hdigits, List.cons_append]

end InletRegistry.Text.Decimal
