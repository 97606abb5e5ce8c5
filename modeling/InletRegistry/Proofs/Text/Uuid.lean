import InletRegistry.Proofs.Text.Percent
import InletRegistry.Text.Uuid

/-!
# The uuids of numbers

Whatever the number, its uuid has the form of one (`isUuid_ofNat`): hexadecimal digits in their groups,
and the version and the variant in their places. All of the other bits are the number's, so numbers of
122 bits that differ have uuids that differ (`mod_eq_of_ofNat_eq`).
-/

namespace InletRegistry.Text.Uuid

variable {cs ds : List Char} {c : Char} {a b n k width : Nat}

/-! ## Digits of a number -/

theorem length_hexDigits (width n : Nat) : (hexDigits width n).length = width := by
  induction width generalizing n with
  | zero => rfl
  | succ width ih => rw [hexDigits, List.length_append, ih, List.length_singleton]

theorem isLowerHex_lower (h : n < 16) : isLowerHex (Hex.lower n) = true := by
  interval_cases n <;> rfl

theorem isLowerHex_iff : isLowerHex c = true ↔
    48 ≤ c.toNat ∧ c.toNat ≤ 57 ∨ 97 ≤ c.toNat ∧ c.toNat ≤ 102 := by
  simp only [isLowerHex, Bool.or_eq_true, Bool.and_eq_true, decide_eq_true_eq]
  rfl

theorem isLowerHex_of_mem_hexDigits (h : c ∈ hexDigits width n) : isLowerHex c = true := by
  induction width generalizing n with
  | zero => cases h
  | succ width ih =>
    rcases List.mem_append.mp h with hfront | hlast
    · exact ih hfront
    · rw [List.mem_singleton.mp hlast]
      apply isLowerHex_lower
      omega

/-- The first digit counts what is left of the number behind the others. -/
theorem hexDigits_succ (width n : Nat) :
    hexDigits (width + 1) n = Hex.lower (n / 16 ^ width % 16) :: hexDigits width n := by
  induction width generalizing n with
  | zero => rw [hexDigits, hexDigits, hexDigits, Nat.pow_zero, Nat.div_one, List.nil_append]
  | succ width ih =>
    have hquotient : n / 16 / 16 ^ width = n / 16 ^ (width + 1) := by
      rw [Nat.div_div_eq_div_mul, Nat.pow_succ']
    rw [hexDigits, ih, List.cons_append, hquotient, hexDigits]

/-- The digits of a number are those of no other number of as many digits. -/
theorem mod_eq_of_hexDigits_eq (h : hexDigits width a = hexDigits width b) :
    a % 16 ^ width = b % 16 ^ width := by
  induction width generalizing a b with
  | zero => rw [Nat.pow_zero, Nat.mod_one, Nat.mod_one]
  | succ width ih =>
    obtain ⟨hfront, hlast⟩ := List.append_inj' h rfl
    have hdigit : a % 16 = b % 16 := by
      have hread := congrArg Hex.digit? (List.cons.inj hlast).1
      rw [Hex.digit?_lower (by omega), Hex.digit?_lower (by omega)] at hread
      exact Option.some.inj hread
    rw [Nat.pow_succ', Nat.mod_mul, Nat.mod_mul, hdigit, ih hfront]

/-! ## The form -/

/-- Whether a character may stand in a place of a uuid. -/
def isPlaced (c : Char) (i : Nat) : Bool :=
  if i = 8 ∨ i = 13 ∨ i = 18 ∨ i = 23 then c == '-'
  else if i = 14 then c == '4'
  else if i = 19 then ['8', '9', 'a', 'b'].contains c
  else isLowerHex c

/-- Whether characters may stand from a place of a uuid on. -/
def arePlaced (cs : List Char) (k : Nat) : Bool := (cs.zipIdx k).all fun p => isPlaced p.1 p.2

theorem isUuid_eq (cs : List Char) : isUuid cs = (cs.length == 36 && arePlaced cs 0) := rfl

theorem arePlaced_cons (c : Char) (cs : List Char) (k : Nat) :
    arePlaced (c :: cs) k = (isPlaced c k && arePlaced cs (k + 1)) := by
  rw [arePlaced, List.zipIdx_cons, List.all_cons, arePlaced]

theorem arePlaced_append (cs ds : List Char) (k : Nat) :
    arePlaced (cs ++ ds) k = (arePlaced cs k && arePlaced ds (k + cs.length)) := by
  rw [arePlaced, List.zipIdx_append, List.all_append, arePlaced, arePlaced]

/-- The places that are for digits of the number. -/
def IsDigitPlace (i : Nat) : Prop :=
  ¬ (i = 8 ∨ i = 13 ∨ i = 18 ∨ i = 23) ∧ i ≠ 14 ∧ i ≠ 19

theorem arePlaced_hexDigits (h : ∀ i, k ≤ i → i < k + width → IsDigitPlace i) :
    arePlaced (hexDigits width n) k = true := by
  apply List.all_eq_true.mpr
  intro p hp
  have hplace := List.mem_zipIdx hp
  rw [length_hexDigits] at hplace
  obtain ⟨hhyphen, hversion, hvariant⟩ := h p.2 hplace.1 hplace.2.1
  rw [isPlaced, if_neg hhyphen, if_neg hversion, if_neg hvariant]
  apply isLowerHex_of_mem_hexDigits
  rw [hplace.2.2]
  exact List.getElem_mem _

/-- What a number of 14 bits is, with the variant in front of it. -/
theorem isPlaced_variant (h : n < 2 ^ 14) :
    isPlaced (Hex.lower ((2 ^ 15 + n) / 16 ^ 3 % 16)) 19 = true := by
  have hdigit : (2 ^ 15 + n) / 16 ^ 3 % 16 ∈ [8, 9, 10, 11] := by
    simp only [List.mem_cons, List.not_mem_nil, or_false]
    omega
  generalize (2 ^ 15 + n) / 16 ^ 3 % 16 = digit at hdigit
  simp only [List.mem_cons, List.not_mem_nil, or_false] at hdigit
  rcases hdigit with rfl | rfl | rfl | rfl <;> rfl

/-! ## The parts of a uuid

The bits of a number stand between the hyphens of its uuid, the highest ones first. -/

def low (n : Nat) : Nat := n / 2 ^ 90 % 2 ^ 32

def middle (n : Nat) : Nat := n / 2 ^ 74 % 2 ^ 16

def high (n : Nat) : Nat := n / 2 ^ 62 % 2 ^ 12

def clock (n : Nat) : Nat := n / 2 ^ 48 % 2 ^ 14

def node (n : Nat) : Nat := n % 2 ^ 48

theorem toList_ofNat (n : Nat) :
    (ofNat n).toList = hexDigits 8 (low n) ++ '-' :: (hexDigits 4 (middle n) ++ '-' :: '4' ::
      (hexDigits 3 (high n) ++ '-' :: (hexDigits 4 (2 ^ 15 + clock n) ++ '-' ::
        hexDigits 12 (node n)))) := by
  rw [ofNat, String.toList_ofList]
  simp only [List.append_assoc, List.cons_append]
  rfl

/-- **The uuid of a number is one**, of version 4. -/
theorem isUuid_ofNat (n : Nat) : isUuid (ofNat n).toList = true := by
  have hclock : clock n < 2 ^ 14 := Nat.mod_lt _ (by decide)
  rw [isUuid_eq, toList_ofNat, hexDigits_succ 3 (2 ^ 15 + clock n)]
  simp only [arePlaced_append, arePlaced_cons, List.length_append, List.length_cons, length_hexDigits,
    List.cons_append, Nat.reduceAdd, Bool.and_eq_true]
  refine ⟨rfl, arePlaced_hexDigits ?_, rfl, arePlaced_hexDigits ?_, rfl, rfl, arePlaced_hexDigits ?_,
    rfl, isPlaced_variant hclock, arePlaced_hexDigits ?_, rfl, arePlaced_hexDigits ?_⟩
  all_goals
    intro i hfirst hlast
    unfold IsDigitPlace
    omega

theorem mem_ofNat (h : c ∈ (ofNat n).toList) : c = '-' ∨ isLowerHex c = true := by
  have hdigit : ∀ {width m}, c ∈ hexDigits width m → c = '-' ∨ isLowerHex c = true := fun hc =>
    Or.inr (isLowerHex_of_mem_hexDigits hc)
  rw [toList_ofNat] at h
  simp only [List.mem_append, List.mem_cons] at h
  rcases h with hc | rfl | hc | rfl | rfl | hc | rfl | hc | rfl | hc
  · exact hdigit hc
  · exact Or.inl rfl
  · exact hdigit hc
  · exact Or.inl rfl
  · exact Or.inr rfl
  · exact hdigit hc
  · exact Or.inl rfl
  · exact hdigit hc
  · exact Or.inl rfl
  · exact hdigit hc

/-- Numbers that have the same uuid agree in their 122 lowest bits. -/
theorem mod_eq_of_ofNat_eq (h : ofNat a = ofNat b) : a % 2 ^ 122 = b % 2 ^ 122 := by
  have hlists := congrArg String.toList h
  rw [toList_ofNat, toList_ofNat] at hlists
  obtain ⟨hlow, hlists⟩ := List.append_inj hlists (by rw [length_hexDigits, length_hexDigits])
  obtain ⟨hmiddle, hlists⟩ := List.append_inj (List.cons.inj hlists).2
    (by rw [length_hexDigits, length_hexDigits])
  obtain ⟨hhigh, hlists⟩ := List.append_inj (List.cons.inj (List.cons.inj hlists).2).2
    (by rw [length_hexDigits, length_hexDigits])
  obtain ⟨hclock, hlists⟩ := List.append_inj (List.cons.inj hlists).2
    (by rw [length_hexDigits, length_hexDigits])
  have hlow := mod_eq_of_hexDigits_eq hlow
  have hmiddle := mod_eq_of_hexDigits_eq hmiddle
  have hhigh := mod_eq_of_hexDigits_eq hhigh
  have hclock := mod_eq_of_hexDigits_eq hclock
  have hnode := mod_eq_of_hexDigits_eq (List.cons.inj hlists).2
  unfold low at hlow
  unfold middle at hmiddle
  unfold high at hhigh
  unfold clock at hclock
  unfold node at hnode
  omega

end InletRegistry.Text.Uuid
