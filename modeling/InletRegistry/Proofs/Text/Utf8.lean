import InletRegistry.Text.Utf8

/-!
# Written characters are read back

The machine that reads UTF-8 takes the octets of one character at a time: from between two characters
it comes to between two characters, with just that character read (`take_encodeChar`). So it reads back
every text that was written, and marks nothing (`marked_encodeList`).

A character of ASCII is one octet, its number; the octets of any other have their highest bit set. So
an octet of ASCII is never part of another character, and what stands before it and behind it is read
apart, whether it is UTF-8 or not (`marked_append`).
-/

namespace InletRegistry.Text.Utf8

/-! ## Octets of ASCII and others -/

section Ascii

variable {c : Char} {b : UInt8}

theorem toNat_ofNat_of_ascii {n : Nat} (h : n < 0x80) : (Char.ofNat n).toNat = n := by
  rw [Char.ofNat, dif_pos (Or.inl (by omega))]
  rfl

theorem toNat_octet_of_ascii (h : c.toNat < 0x80) : (UInt8.ofNat c.toNat).toNat = c.toNat := by
  rw [UInt8.toNat_ofNat', Nat.mod_eq_of_lt (by omega)]

theorem encodeChar_of_ascii (h : c.toNat < 0x80) : encodeChar c = [UInt8.ofNat c.toNat] := if_pos h

/-- The octet of a character of ASCII is its number. -/
theorem toNat_of_mem_encodeChar (h : c.toNat < 0x80) (hb : b ∈ encodeChar c) :
    b.toNat = c.toNat := by
  rw [encodeChar_of_ascii h] at hb
  rw [List.mem_singleton.mp hb, toNat_octet_of_ascii h]

/-- No octet of any other character is one of ASCII. -/
theorem le_of_mem_encodeChar (h : 0x80 ≤ c.toNat) (hb : b ∈ encodeChar c) : 0x80 ≤ b.toNat := by
  have hvalid : c.toNat < 0xD800 ∨ 0xDFFF < c.toNat ∧ c.toNat < 0x110000 := c.valid
  simp only [encodeChar, Nat.not_lt.mpr h, ↓reduceIte] at hb
  split at hb
  next htwo =>
    simp only [List.mem_cons, List.not_mem_nil, or_false] at hb
    rcases hb with rfl | rfl <;> rw [UInt8.toNat_ofNat'] <;> omega
  next htwo =>
    split at hb
    next hthree =>
      simp only [List.mem_cons, List.not_mem_nil, or_false] at hb
      rcases hb with rfl | rfl | rfl <;> rw [UInt8.toNat_ofNat'] <;> omega
    next hthree =>
      simp only [List.mem_cons, List.not_mem_nil, or_false] at hb
      rcases hb with rfl | rfl | rfl | rfl <;> rw [UInt8.toNat_ofNat'] <;> omega

/-- An octet of ASCII that is found in the octets of a text is a character of it. -/
theorem mem_of_mem_encodeList {cs : List Char} (h : b ∈ encodeList cs) (hascii : b.toNat < 0x80) :
    Char.ofNat b.toNat ∈ cs := by
  obtain ⟨c, hc, hb⟩ := List.mem_flatMap.mp h
  by_cases hchar : c.toNat < 0x80
  · rw [toNat_of_mem_encodeChar hchar hb, Char.ofNat_toNat]
    exact hc
  · have hlarge := le_of_mem_encodeChar (Nat.not_lt.mp hchar) hb
    omega

end Ascii

/-- Every character has an octet. -/
theorem encodeChar_ne_nil (c : Char) : encodeChar c ≠ [] := by
  unfold encodeChar
  simp only
  repeat' split
  all_goals exact List.cons_ne_nil _ _

namespace Scan

variable {done : List (Option Char)} {b owed low high bits : Nat}

/-! ## One octet -/

theorem take_first (hb : b < 256) : take ⟨none, done⟩ (UInt8.ofNat b) = first done b := by
  simp only [take, UInt8.toNat_ofNat', Nat.mod_eq_of_lt hb]

/-- An octet within the bounds of the character in progress, which still owes others. -/
theorem take_more (hb : b < 256) (hlow : low ≤ b) (hhigh : b ≤ high) (howed : 1 < owed) :
    take ⟨some ⟨owed, low, high, bits⟩, done⟩ (UInt8.ofNat b) =
      ⟨some ⟨owed - 1, 0x80, 0xBF, bits * 0x40 + (b - 0x80)⟩, done⟩ := by
  simp only [take, UInt8.toNat_ofNat', Nat.mod_eq_of_lt hb, hlow, hhigh, and_self, ↓reduceIte,
    Nat.not_le.mpr howed]

/-- The last octet that the character in progress owes. -/
theorem take_last (hb : b < 256) (hlow : low ≤ b) (hhigh : b ≤ high) :
    take ⟨some ⟨1, low, high, bits⟩, done⟩ (UInt8.ofNat b) =
      ⟨none, some (Char.ofNat (bits * 0x40 + (b - 0x80))) :: done⟩ := by
  simp only [take, UInt8.toNat_ofNat', Nat.mod_eq_of_lt hb, hlow, hhigh, and_self, ↓reduceIte,
    Nat.le_refl]

/-! ## What an octet begins -/

theorem first_one (h : b < 0x80) : first done b = ⟨none, some (Char.ofNat b) :: done⟩ :=
  if_pos h

theorem first_two (hlow : 0xC2 ≤ b) (hhigh : b < 0xE0) :
    first done b = ⟨some ⟨1, 0x80, 0xBF, b - 0xC0⟩, done⟩ := by
  unfold first
  rw [if_neg (by omega), if_neg (by omega), if_pos hhigh]

theorem first_three (hlow : 0xE0 ≤ b) (hhigh : b < 0xF0) :
    first done b = ⟨some ⟨2, if b = 0xE0 then 0xA0 else 0x80, if b = 0xED then 0x9F else 0xBF,
      b - 0xE0⟩, done⟩ := by
  unfold first
  rw [if_neg (by omega), if_neg (by omega), if_neg (by omega), if_pos hhigh]

theorem first_four (hlow : 0xF0 ≤ b) (hhigh : b < 0xF5) :
    first done b = ⟨some ⟨3, if b = 0xF0 then 0x90 else 0x80, if b = 0xF4 then 0x8F else 0xBF,
      b - 0xF0⟩, done⟩ := by
  unfold first
  rw [if_neg (by omega), if_neg (by omega), if_neg (by omega), if_neg (by omega), if_pos hhigh]

/-! ## One character -/

theorem toNat_valid (c : Char) : c.toNat < 0xD800 ∨ 0xDFFF < c.toNat ∧ c.toNat < 0x110000 := c.valid

/-- The octets of a character are read as that character. -/
theorem take_encodeChar (c : Char) :
    (encodeChar c).foldl take ⟨none, done⟩ = ⟨none, some c :: done⟩ := by
  have hvalid := toNat_valid c
  have hchar : ∀ n, n = c.toNat → Char.ofNat n = c := fun n hn => hn ▸ Char.ofNat_toNat c
  simp only [encodeChar]
  split
  next hone =>
    simp only [List.foldl_cons, List.foldl_nil]
    rw [take_first (by omega), first_one hone, hchar _ rfl]
  next hone =>
    split
    next htwo =>
      simp only [List.foldl_cons, List.foldl_nil]
      rw [take_first (by omega), first_two (by omega) (by omega),
        take_last (by omega) (by omega) (by omega), hchar _ (by omega)]
    next htwo =>
      split
      next hthree =>
        simp only [List.foldl_cons, List.foldl_nil]
        -- The bounds of the second octet keep out what is too long and what is half a pair.
        rw [take_first (by omega), first_three (by omega) (by omega),
          take_more (by omega) (by split <;> omega) (by split <;> omega) (by omega),
          take_last (by omega) (by omega) (by omega), hchar _ (by omega)]
      next hthree =>
        simp only [List.foldl_cons, List.foldl_nil]
        rw [take_first (by omega), first_four (by omega) (by omega),
          take_more (by omega) (by split <;> omega) (by split <;> omega) (by omega),
          take_more (by omega) (by omega) (by omega) (by omega),
          take_last (by omega) (by omega) (by omega), hchar _ (by omega)]

theorem take_encodeList (cs : List Char) :
    (encodeList cs).foldl take ⟨none, done⟩ = ⟨none, (cs.map some).reverse ++ done⟩ := by
  induction cs generalizing done with
  | nil => rfl
  | cons c cs ih =>
    rw [encodeList, List.flatMap_cons, List.foldl_append, take_encodeChar]
    rw [encodeList] at ih
    rw [ih, List.map_cons, List.reverse_cons, List.append_assoc, List.singleton_append]

end Scan

/-- **A text that was written is read back**, and nothing of it is marked. -/
theorem marked_encodeList (cs : List Char) : marked (encodeList cs) = cs.map some := by
  simp only [marked, Scan.take_encodeList, Scan.finish, List.append_nil, List.reverse_reverse]

/-! ## An octet of ASCII stands for itself -/

namespace Scan

variable {s : Scan} {octet : UInt8}

/-- Whether the character in progress, if there is one, goes on with octets beyond ASCII alone. -/
def Steady (s : Scan) : Prop := ∀ p ∈ s.begun, 0x80 ≤ p.low

/-- What has been read if no more comes: a character in progress is none. -/
def flushed (s : Scan) : List (Option Char) :=
  match s.begun with
  | none => s.done
  | some _ => none :: s.done

/-- The machine behind what had been read before. -/
def behind (before : List (Option Char)) (s : Scan) : Scan := { s with done := s.done ++ before }

theorem finish_eq : s.finish = s.flushed.reverse := by
  obtain ⟨begun, done⟩ := s
  cases begun <;> rfl

theorem steady_first (done : List (Option Char)) (b : Nat) : (first done b).Steady := by
  intro p hp
  unfold first at hp
  repeat' split at hp
  all_goals cases hp
  all_goals exact Nat.le_of_ble_eq_true rfl

theorem steady_take (s : Scan) (octet : UInt8) : (s.take octet).Steady := by
  unfold take
  simp only
  split
  next => exact steady_first _ _
  next p _ =>
    split
    next =>
      split
      next => exact nofun
      next =>
        intro q hq
        cases hq
        exact Nat.le_refl _
    next => exact steady_first _ _

/-- An octet of ASCII is read as its character, whatever was in progress. -/
theorem Steady.take_ascii (h : s.Steady) (hascii : octet.toNat < 0x80) :
    s.take octet = ⟨none, some (Char.ofNat octet.toNat) :: s.flushed⟩ := by
  obtain ⟨begun, done⟩ := s
  cases begun with
  | none => exact if_pos hascii
  | some p =>
    have hlow := h p rfl
    have hout : ¬ (p.low ≤ octet.toNat ∧ octet.toNat ≤ p.high) := by omega
    simp only [Scan.take, if_neg hout, flushed]
    exact if_pos hascii

theorem first_append (done before : List (Option Char)) (b : Nat) :
    first (done ++ before) b = (first done b).behind before := by
  unfold first
  repeat' split
  all_goals rfl

theorem take_behind (before : List (Option Char)) (s : Scan) (octet : UInt8) :
    (s.behind before).take octet = (s.take octet).behind before := by
  obtain ⟨begun, done⟩ := s
  cases begun with
  | none => exact first_append done before octet.toNat
  | some p =>
    simp only [behind, take]
    split
    · split <;> rfl
    · exact first_append (none :: done) before octet.toNat

theorem foldl_behind (before : List (Option Char)) (bs : List UInt8) (s : Scan) :
    bs.foldl take (s.behind before) = (bs.foldl take s).behind before := by
  induction bs generalizing s with
  | nil => rfl
  | cons b bs ih => rw [List.foldl_cons, take_behind, ih, List.foldl_cons]

theorem flushed_behind (before : List (Option Char)) (s : Scan) :
    (s.behind before).flushed = s.flushed ++ before := by
  obtain ⟨begun, done⟩ := s
  cases begun <;> rfl

theorem Steady.foldl (h : s.Steady) (bs : List UInt8) : (bs.foldl Scan.take s).Steady := by
  induction bs generalizing s with
  | nil => exact h
  | cons b bs ih => exact ih (steady_take s b)

end Scan

/-- **Octets are read in two parts** at an octet of ASCII, which stands for itself. -/
theorem marked_append {octet : UInt8} (hascii : octet.toNat < 0x80) (front rest : List UInt8) :
    marked (front ++ octet :: rest) =
      marked front ++ some (Char.ofNat octet.toNat) :: marked rest := by
  have hsteady : (⟨none, []⟩ : Scan).Steady := nofun
  have hstart : ∀ done, (⟨none, done⟩ : Scan) = Scan.behind done ⟨none, []⟩ := fun _ => rfl
  simp only [marked, List.foldl_append, List.foldl_cons, (hsteady.foldl front).take_ascii hascii]
  rw [hstart, Scan.foldl_behind, Scan.finish_eq, Scan.flushed_behind, Scan.finish_eq, Scan.finish_eq,
    List.reverse_append, List.reverse_cons, List.append_assoc, List.singleton_append]

/-- What is read as characters without a mark. -/
theorem strict?_eq_some_iff {bs : List UInt8} {cs : List Char} :
    strict? bs = some cs ↔ marked bs = cs.map some := by
  unfold strict?
  simp only
  constructor
  · intro h
    split at h
    next hall =>
      rw [← Option.some.inj h, List.map_map]
      refine (List.map_id _).symm.trans (List.map_congr_left fun m hm => ?_)
      obtain ⟨c, rfl⟩ := Option.isSome_iff_exists.mp (List.all_eq_true.mp hall m hm)
      rfl
    next => cases h
  · intro h
    rw [h, if_pos, List.map_map]
    · exact congrArg some (List.map_id cs)
    · refine List.all_eq_true.mpr fun m hm => ?_
      obtain ⟨c, -, rfl⟩ := List.mem_map.mp hm
      rfl

/-- A text behind an octet of ASCII is read behind what stands before it, or nothing is. -/
theorem strict?_append_encodeList {octet : UInt8} (hascii : octet.toNat < 0x80) (front : List UInt8)
    (cs : List Char) :
    strict? (front ++ octet :: encodeList cs) = (strict? (front ++ [octet])).map (· ++ cs) := by
  have hnil : marked [] = [] := rfl
  have hmarked : marked (front ++ octet :: encodeList cs) = marked (front ++ [octet]) ++ cs.map some := by
    rw [marked_append hascii, marked_append hascii, marked_encodeList, hnil, List.append_assoc]
    rfl
  have hsome : (cs.map some).all Option.isSome = true := by simp
  have hback : (cs.map some).map (·.getD replacement) = cs := by
    rw [List.map_map]
    exact List.map_id cs
  simp only [strict?, hmarked, List.all_append, hsome, Bool.and_true, List.map_append, hback]
  split <;> rfl

end InletRegistry.Text.Utf8
