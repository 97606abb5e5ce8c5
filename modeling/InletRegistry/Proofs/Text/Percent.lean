import InletRegistry.Proofs.Text.Pieces
import InletRegistry.Proofs.Text.Utf8
import InletRegistry.Text.Percent
import Mathlib.Tactic.IntervalCases

/-!
# Escapes are read octet by octet

To a reader of escapes an escape is the octet that it stands for, and any character that is neither a
percent sign nor a hexadecimal digit is its octets; whatever escape was in progress before it was none
(`take_escape`, `take_other`). So escaping a text that may have escapes in it already does not change
what is read, as long as percent signs and digits stay as they are (`decode_encode`), and a text is read
in two parts at every such character (`decode_append`).
-/

namespace InletRegistry.Text

/-! ## Hexadecimal digits -/

namespace Hex

variable {c : Char} {n : Nat}

/-- Digits are characters of ASCII. -/
theorem toNat_lt_of_digit? (h : (digit? c).isSome = true) : c.toNat < 0x80 := by
  have hle : ∀ d : Char, c ≤ d → c.toNat ≤ d.toNat := fun d hd => hd
  unfold digit? at h
  split at h
  next hdigit => exact Nat.lt_of_le_of_lt (hle '9' hdigit.2) (by decide)
  next =>
    split at h
    next hlower => exact Nat.lt_of_le_of_lt (hle 'f' hlower.2) (by decide)
    next =>
      split at h
      next hupper => exact Nat.lt_of_le_of_lt (hle 'F' hupper.2) (by decide)
      next => cases h

/-- The digit of a number is read as that number, in either letter case. -/
theorem digit?_upper (h : n < 16) : digit? (upper n) = some n := by
  interval_cases n <;> rfl

theorem digit?_lower (h : n < 16) : digit? (lower n) = some n := by
  interval_cases n <;> rfl

end Hex

namespace Percent

variable {safe : UInt8 → Bool} {s : Scan} {c : Char} {b : UInt8} {cs : List Char}

/-- The octets that have been read if no more comes: an escape in progress is none. -/
def Scan.flushed (s : Scan) : List UInt8 :=
  match s.escape with
  | .closed => s.done
  | .opened => Scan.keep s.done '%'
  | .half d => Scan.keep (Scan.keep s.done '%') d

theorem Scan.finish_eq : s.finish = s.flushed.reverse := by
  obtain ⟨escape, done⟩ := s
  cases escape <;> rfl

/-- The reader behind some octets that had been read before. -/
def Scan.behind (before : List UInt8) (s : Scan) : Scan := { s with done := s.done ++ before }

/-! ## One character -/

/-- What begins no escape and is no digit is read as it is. -/
theorem take_other (hpercent : c ≠ '%') (hdigit : Hex.digit? c = none) :
    s.take c = ⟨.closed, Scan.keep s.flushed c⟩ := by
  obtain ⟨escape, done⟩ := s
  cases escape with
  | closed => exact if_neg hpercent
  | opened => simp only [Scan.take, hdigit, Scan.outside, hpercent, ↓reduceIte, Scan.flushed]
  | half d =>
    have houtside : Scan.take ⟨.half d, done⟩ c =
        Scan.outside (Scan.keep (Scan.keep done '%') d) c := by
      simp only [Scan.take, hdigit]
      split
      next hnone => cases hnone
      next => rfl
    rw [houtside]
    exact if_neg hpercent

/-- A percent sign begins an escape, whatever was in progress. -/
theorem take_percent : s.take '%' = ⟨.opened, s.flushed⟩ := by
  obtain ⟨escape, done⟩ := s
  have hdigit : Hex.digit? '%' = none := rfl
  cases escape with
  | closed => rfl
  | opened => rfl
  | half d =>
    simp only [Scan.take, hdigit]
    split
    next hnone => cases hnone
    next => rfl

/-- An escape is read as its octet. -/
theorem take_escape (b : UInt8) : (escape b).foldl Scan.take s = ⟨.closed, b :: s.flushed⟩ := by
  have hb := b.toNat_lt
  have hhigh := Hex.digit?_upper (n := b.toNat / 16) (by omega)
  have hlow := Hex.digit?_upper (n := b.toNat % 16) (by omega)
  have hoctet : UInt8.ofNat (b.toNat / 16 * 16 + b.toNat % 16) = b := by
    rw [Nat.div_add_mod', UInt8.ofNat_toNat]
  rw [escape, List.foldl_cons, take_percent]
  simp only [List.foldl_cons, List.foldl_nil, Scan.take, hhigh, hlow, hoctet]

/-- What is put in place of octets is read as these octets, if percent signs are escaped too. -/
structure MasksEscapes (safe : UInt8 → Bool) : Prop where
  ascii : ∀ b, safe b = true → b.toNat < 0x80
  percent : safe 0x25 = false

theorem take_encodeOctets_of_masks (h : MasksEscapes safe) (bs done : List UInt8) :
    (encodeOctets safe bs).foldl Scan.take ⟨.closed, done⟩ = ⟨.closed, bs.reverse ++ done⟩ := by
  induction bs generalizing done with
  | nil => rfl
  | cons b bs ih =>
    have hfirst : (if safe b then [Char.ofNat b.toNat] else escape b).foldl Scan.take ⟨.closed, done⟩ =
        ⟨.closed, b :: done⟩ := by
      by_cases hsafe : safe b = true
      · have hascii := h.ascii b hsafe
        have hnumber := Utf8.toNat_ofNat_of_ascii hascii
        have hplain : Char.ofNat b.toNat ≠ '%' := by
          intro heq
          have hpercent : b = 0x25 := by
            apply UInt8.toNat_inj.mp
            rw [← hnumber, heq]
            rfl
          rw [hpercent, h.percent] at hsafe
          cases hsafe
        rw [if_pos hsafe, List.foldl_cons, List.foldl_nil, Scan.take, Scan.outside, if_neg hplain,
          Scan.keep, Utf8.encodeChar_of_ascii (by omega), hnumber, UInt8.ofNat_toNat]
        rfl
      · rw [if_neg hsafe]
        exact take_escape b
    rw [encodeOctets, List.flatMap_cons, List.foldl_append, hfirst]
    rw [encodeOctets] at ih
    rw [ih, List.reverse_cons, List.append_assoc, List.singleton_append]

/-- **Octets that were escaped are read back**, if percent signs are escaped too. -/
theorem decode_encodeOctets (h : MasksEscapes safe) (bs : List UInt8) :
    decode (encodeOctets safe bs) = bs := by
  rw [decode, take_encodeOctets_of_masks h]
  simp only [Scan.finish, List.append_nil, List.reverse_reverse]

theorem take_escapes (bs : List UInt8) :
    (bs.flatMap escape).foldl Scan.take ⟨.closed, s.done⟩ = ⟨.closed, bs.reverse ++ s.done⟩ := by
  have hnone : MasksEscapes fun _ => false := ⟨fun _ h => absurd h Bool.false_ne_true, rfl⟩
  exact take_encodeOctets_of_masks hnone bs s.done

/-- The digits of an escape are digits. -/
theorem digit?_of_mem_escape (h : c ∈ escape b) : c = '%' ∨ (Hex.digit? c).isSome = true := by
  have hb := b.toNat_lt
  simp only [escape, List.mem_cons, List.not_mem_nil, or_false] at h
  rcases h with rfl | rfl | rfl
  · exact Or.inl rfl
  · exact Or.inr (by rw [Hex.digit?_upper (by omega)]; rfl)
  · exact Or.inr (by rw [Hex.digit?_upper (by omega)]; rfl)

/-! ## Escaping what may have escapes in it -/

/-- That no octet is escaped on which an escape hangs, and every octet beyond ASCII is. -/
structure LeavesEscapes (safe : UInt8 → Bool) : Prop where
  ascii : ∀ b, safe b = true → b.toNat < 0x80
  percent : safe 0x25 = true
  digits : ∀ n < 0x80, (Hex.digit? (Char.ofNat n)).isSome = true → safe (UInt8.ofNat n) = true

theorem encode_cons (safe : UInt8 → Bool) (c : Char) (cs : List Char) :
    encode safe (c :: cs) = encodeOctets safe (Utf8.encodeChar c) ++ encode safe cs := by
  simp only [encode, encodeOctets, Utf8.encodeList, List.flatMap_cons, List.flatMap_append]

/-- A text is escaped character by character. -/
theorem encode_eq_flatMap (safe : UInt8 → Bool) (cs : List Char) :
    encode safe cs = cs.flatMap fun c => encodeOctets safe (Utf8.encodeChar c) := by
  induction cs with
  | nil => rfl
  | cons c cs ih => rw [encode_cons, ih, List.flatMap_cons]

theorem encodeOctets_ne_nil {bs : List UInt8} (h : bs ≠ []) : encodeOctets safe bs ≠ [] := by
  cases bs with
  | nil => exact absurd rfl h
  | cons b bs =>
    rw [encodeOctets, List.flatMap_cons]
    refine List.append_ne_nil_of_left_ne_nil ?_ _
    split
    · exact List.cons_ne_nil _ _
    · exact List.cons_ne_nil _ _

theorem encode_eq_nil_iff : encode safe cs = [] ↔ cs = [] := by
  cases cs with
  | nil => exact iff_of_true rfl rfl
  | cons c cs =>
    refine iff_of_false (fun hnil => ?_) (List.cons_ne_nil c cs)
    rw [encode_cons] at hnil
    exact encodeOctets_ne_nil (Utf8.encodeChar_ne_nil c) (List.append_eq_nil_iff.mp hnil).1

/-- A character whose octet is safe stands as it is. -/
theorem encodeOctets_of_safe (hascii : c.toNat < 0x80) (hsafe : safe (UInt8.ofNat c.toNat) = true) :
    encodeOctets safe (Utf8.encodeChar c) = [c] := by
  simp only [Utf8.encodeChar_of_ascii hascii, encodeOctets, List.flatMap_cons, List.flatMap_nil, hsafe,
    ↓reduceIte, Utf8.toNat_octet_of_ascii hascii, Char.ofNat_toNat, List.append_nil]

/-- Any other character is escaped as a whole. -/
theorem encodeOctets_of_not_safe (h : ∀ b ∈ Utf8.encodeChar c, safe b = false) :
    encodeOctets safe (Utf8.encodeChar c) = (Utf8.encodeChar c).flatMap escape := by
  rw [encodeOctets, List.flatMap_def, List.flatMap_def]
  refine congrArg List.flatten (List.map_congr_left fun b hb => ?_)
  rw [h b hb, if_neg Bool.false_ne_true]

/-- One or the other happens to a character. -/
theorem encodeOctets_cases (h : LeavesEscapes safe) (c : Char) :
    encodeOctets safe (Utf8.encodeChar c) = [c] ∨
      encodeOctets safe (Utf8.encodeChar c) = (Utf8.encodeChar c).flatMap escape ∧
        c ≠ '%' ∧ Hex.digit? c = none := by
  by_cases hascii : c.toNat < 0x80
  · by_cases hsafe : safe (UInt8.ofNat c.toNat) = true
    · exact Or.inl (encodeOctets_of_safe hascii hsafe)
    · refine Or.inr ⟨encodeOctets_of_not_safe ?_, ?_, ?_⟩
      · intro b hb
        rw [Utf8.encodeChar_of_ascii hascii] at hb
        rw [List.mem_singleton.mp hb]
        exact Bool.eq_false_iff.mpr hsafe
      · rintro rfl
        exact hsafe h.percent
      · by_contra hdigit
        refine hsafe (h.digits _ hascii ?_)
        rw [Char.ofNat_toNat]
        exact Option.isSome_iff_ne_none.mpr hdigit
  · refine Or.inr ⟨encodeOctets_of_not_safe ?_, ?_, ?_⟩
    · intro b hb
      have hlarge := Utf8.le_of_mem_encodeChar (Nat.not_lt.mp hascii) hb
      exact Bool.eq_false_iff.mpr fun hsafe => Nat.not_lt.mpr hlarge (h.ascii b hsafe)
    · rintro rfl
      exact hascii (by decide)
    · by_contra hdigit
      exact hascii (Hex.toNat_lt_of_digit? (Option.isSome_iff_ne_none.mpr hdigit))

/-- A character whose octet is not safe is nowhere in what has been escaped. -/
theorem not_mem_encode (h : LeavesEscapes safe) (hascii : c.toNat < 0x80)
    (hescaped : safe (UInt8.ofNat c.toNat) = false) : c ∉ encode safe cs := by
  intro hmem
  obtain ⟨b, -, hb⟩ := List.mem_flatMap.mp hmem
  split at hb
  next hsafe =>
    have hlt := h.ascii b hsafe
    have hoctet : UInt8.ofNat c.toNat = b := by
      rw [List.mem_singleton.mp hb, Utf8.toNat_ofNat_of_ascii hlt, UInt8.ofNat_toNat]
    rw [hoctet, hsafe] at hescaped
    cases hescaped
  next =>
    rcases digit?_of_mem_escape hb with rfl | hdigit
    · exact absurd hescaped (Bool.not_eq_false _ ▸ h.percent)
    · rw [← Char.ofNat_toNat c] at hdigit
      rw [h.digits _ hascii hdigit] at hescaped
      cases hescaped

/-- A character is read the same, escaped or not. -/
theorem take_encodeOctets (h : LeavesEscapes safe) (s : Scan) (c : Char) :
    (encodeOctets safe (Utf8.encodeChar c)).foldl Scan.take s = s.take c := by
  rcases encodeOctets_cases h c with hkept | ⟨hescaped, hpercent, hdigit⟩
  · rw [hkept]
    rfl
  · rw [hescaped, take_other hpercent hdigit]
    cases hoctets : Utf8.encodeChar c with
    | nil => exact absurd hoctets (Utf8.encodeChar_ne_nil c)
    | cons b bs =>
      have hrest := take_escapes (s := ⟨.closed, b :: s.flushed⟩) bs
      rw [List.flatMap_cons, List.foldl_append, take_escape, hrest, Scan.keep, hoctets,
        List.reverse_cons, List.append_assoc, List.singleton_append]

/-- **To escape a text once more does not change what is read**, if percent signs and digits stay. -/
theorem decode_encode (h : LeavesEscapes safe) (cs : List Char) :
    decode (encode safe cs) = decode cs := by
  have hscan : ∀ s : Scan, (encode safe cs).foldl Scan.take s = cs.foldl Scan.take s := by
    induction cs with
    | nil => exact fun _ => rfl
    | cons c cs ih =>
      intro s
      rw [encode_cons, List.foldl_append, take_encodeOctets h, List.foldl_cons, ih]
  rw [decode, hscan, decode]

/-! ## Reading in two parts -/

theorem take_behind (before : List UInt8) (s : Scan) (c : Char) :
    (s.behind before).take c = (s.take c).behind before := by
  obtain ⟨escape, done⟩ := s
  have hkeep : ∀ (d : Char) (bs : List UInt8), Scan.keep (bs ++ before) d = Scan.keep bs d ++ before :=
    fun d bs => (List.append_assoc _ bs before).symm
  have houtside : ∀ (d : Char) (bs : List UInt8),
      Scan.outside (bs ++ before) d = (Scan.outside bs d).behind before := by
    intro d bs
    unfold Scan.outside
    split
    · rfl
    · rw [hkeep]
      rfl
  cases escape with
  | closed => exact houtside c done
  | opened =>
    simp only [Scan.behind, Scan.take]
    cases Hex.digit? c with
    | none =>
      simp only [hkeep]
      exact houtside c _
    | some _ => rfl
  | half d =>
    simp only [Scan.behind, Scan.take]
    cases Hex.digit? d with
    | none =>
      simp only [hkeep]
      exact houtside c _
    | some _ =>
      cases Hex.digit? c with
      | none =>
        simp only [hkeep]
        exact houtside c _
      | some _ => rfl

theorem foldl_behind (before : List UInt8) (cs : List Char) (s : Scan) :
    cs.foldl Scan.take (s.behind before) = (cs.foldl Scan.take s).behind before := by
  induction cs generalizing s with
  | nil => rfl
  | cons c cs ih => rw [List.foldl_cons, take_behind, ih, List.foldl_cons]

theorem flushed_behind (before : List UInt8) (s : Scan) :
    (s.behind before).flushed = s.flushed ++ before := by
  obtain ⟨escape, done⟩ := s
  cases escape with
  | closed => rfl
  | opened => exact (List.append_assoc _ done before).symm
  | half d =>
    simp only [Scan.behind, Scan.flushed, Scan.keep, List.append_assoc]

/-- **A text is read in two parts** at a character that neither begins an escape nor goes on with one. -/
theorem decode_append (hpercent : c ≠ '%') (hdigit : Hex.digit? c = none) (front rest : List Char) :
    decode (front ++ c :: rest) = decode front ++ (Utf8.encodeChar c ++ decode rest) := by
  have hstart : ∀ bs : List UInt8, (⟨.closed, bs⟩ : Scan) = Scan.behind bs ⟨.closed, []⟩ := fun _ => rfl
  simp only [decode, List.foldl_append, List.foldl_cons, take_other hpercent hdigit]
  rw [hstart, foldl_behind, Scan.finish_eq, flushed_behind, Scan.finish_eq, Scan.finish_eq, Scan.keep,
    List.reverse_append, List.reverse_append, List.reverse_reverse, List.append_assoc]

/-- What stands between such characters is read as less than the whole. -/
theorem length_decode_lt_of_mem_pieces (hascii : c.toNat < 0x80) (hpercent : c ≠ '%')
    (hdigit : Hex.digit? c = none) {s cs : List Char} (hc : c ∈ cs) (hs : s ∈ pieces c cs) :
    (Utf8.marked (decode s)).length < (Utf8.marked (decode cs)).length := by
  have hoctet := Utf8.toNat_octet_of_ascii hascii
  -- From one such character to the next one.
  induction hlength : cs.length using Nat.strong_induction_on generalizing cs with
  | _ n ih =>
    obtain ⟨front, rest, rfl, hfront⟩ := List.eq_append_cons_of_mem hc
    have hwhole : (Utf8.marked (decode (front ++ c :: rest))).length =
        (Utf8.marked (decode front)).length + ((Utf8.marked (decode rest)).length + 1) := by
      rw [decode_append hpercent hdigit, Utf8.encodeChar_of_ascii hascii, List.singleton_append,
        Utf8.marked_append (by omega), List.length_append, List.length_cons]
    rw [List.length_append, List.length_cons] at hlength
    rw [pieces_append, pieces_of_not_mem hfront, List.singleton_append] at hs
    rw [hwhole]
    rcases List.mem_cons.mp hs with rfl | hmore
    · omega
    · by_cases hrest : c ∈ rest
      · have hlt := ih rest.length (by omega) hrest hmore rfl
        omega
      · rw [pieces_of_not_mem hrest] at hmore
        obtain rfl := List.mem_singleton.mp hmore
        omega

end Percent

end InletRegistry.Text
