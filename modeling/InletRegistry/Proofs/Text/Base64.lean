import InletRegistry.Text.Base64
import InletRegistry.Text.Blank

/-!
# Octets come back from Base64

Each of the 64 characters stands for its own six bits, so octets that are written are read back
(`decode?_encode`). Nothing else is in what is written: it has no blank in it, and no dot.
-/

namespace InletRegistry.Text.Base64

variable {n x y : Nat} {c : Char} {bs : List UInt8}

/-! ## Characters -/

theorem bits?_symbol (h : n < 64) : bits? (symbol n) = some n := by
  have hall : ∀ n ∈ List.range 64, bits? (symbol n) = some n := by decide
  exact hall n (List.mem_range.mpr h)

theorem symbol_plain (h : n < 64) : isBlank (symbol n) = false ∧ symbol n ≠ '.' := by
  have hall : ∀ n ∈ List.range 64, isBlank (symbol n) = false ∧ symbol n ≠ '.' := by decide
  exact hall n (List.mem_range.mpr h)

/-! ## Bits -/

/-- The second character of two octets has the last two bits of the first and four of the second. -/
theorem second_lt (hy : y < 256) : x % 4 * 16 + y / 16 < 64 := by omega

/-- The first octet is put together from the first two characters. -/
theorem first_octet (hy : y < 256) : x / 4 * 4 + (x % 4 * 16 + y / 16) / 16 = x := by omega

/-! ## Texts -/

/-- **Octets that are written are read back.** -/
theorem decode?_encode (bs : List UInt8) : decode? (encode bs) = some bs := by
  fun_induction encode bs with
  | case1 => rfl
  | case2 a =>
    have ha := a.toNat_lt
    have hsplit : a.toNat / 4 * 4 + a.toNat % 4 * 16 / 16 = a.toNat := by omega
    have hrest : a.toNat % 4 * 16 % 16 = 0 := by omega
    simp only [decode?, bits?_symbol (show a.toNat / 4 < 64 by omega),
      bits?_symbol (show a.toNat % 4 * 16 < 64 by omega), hrest, ↓reduceIte, hsplit, UInt8.ofNat_toNat]
  | case3 a b =>
    have ha := a.toNat_lt
    have hb := b.toNat_lt
    have hsecond : (a.toNat % 4 * 16 + b.toNat / 16) % 16 * 16 + b.toNat % 16 * 4 / 4 = b.toNat := by
      omega
    have hrest : b.toNat % 16 * 4 % 4 = 0 := by omega
    simp only [decode?, bits?_symbol (show a.toNat / 4 < 64 by omega),
      bits?_symbol (second_lt hb), first_octet hb,
      bits?_symbol (show b.toNat % 16 * 4 < 64 by omega), hrest, ↓reduceIte, hsecond,
      UInt8.ofNat_toNat]
  | case4 a b c rest ih =>
    have ha := a.toNat_lt
    have hb := b.toNat_lt
    have hc := c.toNat_lt
    have hsecond : (a.toNat % 4 * 16 + b.toNat / 16) % 16 * 16 + (b.toNat % 16 * 4 + c.toNat / 64) / 4 =
        b.toNat := by omega
    have hthird : (b.toNat % 16 * 4 + c.toNat / 64) % 4 * 64 + c.toNat % 64 = c.toNat := by omega
    simp only [decode?, bits?_symbol (show a.toNat / 4 < 64 by omega),
      bits?_symbol (second_lt hb), first_octet hb,
      bits?_symbol (show b.toNat % 16 * 4 + c.toNat / 64 < 64 by omega),
      bits?_symbol (show c.toNat % 64 < 64 by omega), ih, hsecond, hthird, UInt8.ofNat_toNat]

/-- Every character that is written stands for six bits. -/
theorem exists_of_mem_encode (h : c ∈ encode bs) : ∃ n < 64, c = symbol n := by
  fun_induction encode bs with
  | case1 => cases h
  | case2 a =>
    have ha := a.toNat_lt
    simp only [List.mem_cons, List.not_mem_nil, or_false] at h
    rcases h with rfl | rfl <;> exact ⟨_, by omega, rfl⟩
  | case3 a b =>
    have ha := a.toNat_lt
    have hb := b.toNat_lt
    simp only [List.mem_cons, List.not_mem_nil, or_false] at h
    rcases h with rfl | rfl | rfl <;> exact ⟨_, by omega, rfl⟩
  | case4 a b d rest ih =>
    have ha := a.toNat_lt
    have hb := b.toNat_lt
    have hd := d.toNat_lt
    simp only [List.mem_cons] at h
    rcases h with rfl | rfl | rfl | rfl | h
    · exact ⟨_, by omega, rfl⟩
    · exact ⟨_, by omega, rfl⟩
    · exact ⟨_, by omega, rfl⟩
    · exact ⟨_, by omega, rfl⟩
    · exact ih h

theorem not_isBlank_of_mem_encode (h : c ∈ encode bs) : isBlank c = false := by
  obtain ⟨n, hn, rfl⟩ := exists_of_mem_encode h
  exact (symbol_plain hn).1

theorem dot_not_mem_encode (bs : List UInt8) : '.' ∉ encode bs := by
  intro h
  obtain ⟨n, hn, hdot⟩ := exists_of_mem_encode h
  exact (symbol_plain hn).2 hdot.symm

end InletRegistry.Text.Base64
