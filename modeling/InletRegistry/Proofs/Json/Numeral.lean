import InletRegistry.Json.Number
import InletRegistry.Proofs.Text.Decimal
import Mathlib.Data.List.TakeWhile

/-!
# Written numbers are read back

A natural number is written in decimal digits, the first of which is a zero only for zero itself. So it
is a numeral without sign, fraction and exponent, and the number that this stands for is the natural
number again, up to the greatest one of 64 bits. Behind a minus sign it is that of a negative number, down to the
least integer of 64 bits.
-/

namespace InletRegistry

namespace Json

open InletRegistry.Text

namespace Numeral

variable {n m : Nat} {c : Char} {cs : List Char}

/-! ## Spelling -/

theorem splitDigits_of_all (h : ∀ c ∈ cs, Decimal.isDigit c = true) : splitDigits cs = (cs, []) := by
  rw [splitDigits, List.takeWhile_eq_self_iff.mpr h, List.dropWhile_eq_nil_iff.mpr h]

theorem isWhole_digits (n : Nat) : isWhole (Decimal.digits n) = true := by
  rcases Nat.eq_zero_or_pos n with rfl | hn
  · rfl
  · obtain ⟨c, rest, hdigits, hc⟩ := Decimal.digits_of_pos hn
    rw [hdigits]
    unfold isWhole
    split
    next heq => cases heq
    next => rfl
    next heq => exact absurd (List.cons.inj heq).1 hc
    next => rfl

/-- The digits of a number are a numeral. -/
theorem ofChars?_digits (n : Nat) :
    ofChars? (Decimal.digits n) = some ⟨false, Decimal.digits n, [], none⟩ := by
  have hdigits : ∀ c ∈ Decimal.digits n, Decimal.isDigit c = true := fun c hc =>
    Decimal.isDigit_of_mem_digits hc
  have hunsigned : ∀ rest, Decimal.digits n ≠ '-' :: rest := by
    intro rest heq
    have hsign := hdigits '-' (by rw [heq]; exact List.mem_cons_self)
    exact absurd hsign (by decide)
  unfold ofChars?
  split
  next isNegative unsigned hmatch =>
    split at hmatch
    next rest heq => exact absurd heq (hunsigned rest)
    next =>
      obtain ⟨rfl, rfl⟩ := Prod.mk.inj hmatch
      simp only [splitDigits_of_all hdigits, isWhole_digits, ↓reduceIte]
      rfl

/-- The digits of a number behind a minus sign are a negative numeral. -/
theorem ofChars?_negative (n : Nat) :
    ofChars? ('-' :: Decimal.digits n) = some ⟨true, Decimal.digits n, [], none⟩ := by
  have hdigits : ∀ c ∈ Decimal.digits n, Decimal.isDigit c = true := fun c hc =>
    Decimal.isDigit_of_mem_digits hc
  simp only [ofChars?, splitDigits_of_all hdigits, isWhole_digits, ↓reduceIte]
  rfl

/-! ## Value -/

theorem le_foldl_digits (cs : List Char) (m : Nat) :
    m ≤ cs.foldl (fun n c => n * 10 + Decimal.digitValue c) m := by
  induction cs generalizing m with
  | nil => exact Nat.le_refl m
  | cons c cs ih => exact Nat.le_trans (by omega) (ih (m * 10 + Decimal.digitValue c))

/-- Digits that spell a number of 64 bits fit as a whole. -/
theorem fit_of_le
    (h : cs.foldl (fun n c => n * 10 + Decimal.digitValue c) m ≤ Decimal.word64) :
    fit m cs = (cs.foldl (fun n c => n * 10 + Decimal.digitValue c) m, []) := by
  induction cs generalizing m with
  | nil => rfl
  | cons c cs ih =>
    rw [List.foldl_cons] at h ⊢
    rw [fit]
    rw [if_pos (Nat.le_trans (le_foldl_digits cs _) h)]
    exact ih h

/-- The digits of a number of 64 bits are an integer, with or without a sign. -/
theorem integer?_digits (isNegative : Bool) (hn : n ≤ Decimal.word64) :
    integer? ⟨isNegative, Decimal.digits n, [], none⟩ = some n := by
  have hvalue := Decimal.value_digits n
  rw [Decimal.value] at hvalue
  have hfit : fit 0 (Decimal.digits n) = (n, []) := by
    rw [fit_of_le (by rw [hvalue]; exact hn), hvalue]
  simp only [integer?, hfit, and_self, ↓reduceIte]

theorem number?_digits (hn : n ≤ Decimal.word64) :
    number? ⟨false, Decimal.digits n, [], none⟩ = some (.natural n) := by
  simp only [number?, integer?_digits false hn, Bool.not_false, ↓reduceIte]

theorem number?_negative (hpos : 1 ≤ n) (hn : n ≤ Nat.pow 2 63) :
    number? ⟨true, Decimal.digits n, [], none⟩ = some (.negative n) := by
  have hword : Nat.pow 2 63 ≤ Decimal.word64 := by decide
  simp only [number?, integer?_digits true (Nat.le_trans hn hword), Bool.not_true, Bool.false_eq_true,
    hpos, hn, and_self, ↓reduceIte]

end Numeral

end Json

end InletRegistry
