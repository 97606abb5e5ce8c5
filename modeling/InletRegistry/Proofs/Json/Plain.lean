import InletRegistry.Json.Printer
import InletRegistry.Proofs.Json.Numeral

/-!
# Written values are plain

No control character is in what is written for a value, whatever its texts are made of: in a text it is
escaped, and numbers, literals and marks have none. So what is written for a value stands on one line.
-/

namespace InletRegistry.Json

open InletRegistry.Text

variable {c : Char} {cs ds : List Char}

/-- Whether none of some characters is a control character of ASCII. -/
def ArePlain (cs : List Char) : Prop := ∀ c ∈ cs, 0x20 ≤ c.toNat

instance (cs : List Char) : Decidable (ArePlain cs) :=
  List.decidableBAll (fun c : Char => 0x20 ≤ c.toNat) cs

namespace ArePlain

theorem nil : ArePlain [] := nofun

theorem cons (hc : 0x20 ≤ c.toNat) (hcs : ArePlain cs) : ArePlain (c :: cs) :=
  List.forall_mem_cons.mpr ⟨hc, hcs⟩

theorem append (hcs : ArePlain cs) (hds : ArePlain ds) : ArePlain (cs ++ ds) :=
  List.forall_mem_append.mpr ⟨hcs, hds⟩

theorem replicate (hc : 0x20 ≤ c.toNat) (n : Nat) : ArePlain (List.replicate n c) := fun _ h =>
  List.eq_of_mem_replicate h ▸ hc

end ArePlain

/-! ## Numbers -/

theorem arePlain_digits (n : Nat) : ArePlain (Decimal.digits n) := by
  intro c hc
  have hdigit := Decimal.isDigit_of_mem_digits hc
  simp only [Decimal.isDigit, Bool.and_eq_true, decide_eq_true_eq] at hdigit
  have hle : '0'.toNat ≤ c.toNat := UInt32.le_iff_toNat_le.mp hdigit.1
  exact Nat.le_trans (by decide) hle

namespace Number

theorem arePlain_pointed (hcs : ArePlain cs) (before : Nat) : ArePlain (pointed cs before) :=
  .append (fun c hc => hcs c (List.mem_of_mem_take hc))
    (.cons (by decide) fun c hc => hcs c (List.mem_of_mem_drop hc))

theorem arePlain_signed (n : Int) : ArePlain (signed n) := by
  unfold signed
  split
  · exact .cons (by decide) (arePlain_digits _)
  · exact arePlain_digits _

theorem arePlain_magnitudeText (bits : Nat) : ArePlain (magnitudeText bits) := by
  have hdigits := arePlain_digits (Binary64.shortest bits).digits
  have hzeros : ∀ n, ArePlain (List.replicate n '0') := .replicate (by decide)
  have hpoint : ArePlain ".0".toList := by decide
  have hzero : ArePlain "0.".toList := by decide
  have hexponent : ∀ n, ArePlain ('e' :: signed n) := fun n => .cons (by decide) (arePlain_signed n)
  unfold magnitudeText
  simp only
  split
  next => decide
  next =>
    split
    next => exact (hdigits.append (hzeros _)).append hpoint
    next =>
      split
      next => exact arePlain_pointed hdigits _
      next =>
        split
        next => exact (hzero.append (hzeros _)).append hdigits
        next =>
          split
          next => exact hdigits.append (hexponent _)
          next => exact (arePlain_pointed hdigits 1).append (hexponent _)

theorem arePlain_print : ∀ k : Number, ArePlain k.print
  | .natural n => arePlain_digits n
  | .negative n => .cons (by decide) (arePlain_digits n)
  | .floating false bits => arePlain_magnitudeText bits
  | .floating true bits => .cons (by decide) (arePlain_magnitudeText bits)

end Number

/-! ## Texts -/

theorem le_toNat_lower {n : Nat} (h : n < 16) : 0x20 ≤ (Hex.lower n).toNat := by
  have hall : ∀ n ∈ List.range 16, 0x20 ≤ (Hex.lower n).toNat := by decide
  exact hall n (List.mem_range.mpr h)

/-- A control character is written by others. -/
theorem arePlain_quoteChar (c : Char) : ArePlain (quoteChar c) := by
  unfold quoteChar
  -- The seven characters with an escape of their own.
  iterate 7
    split
    · decide
  split
  next hcontrol =>
    have hdigits : ArePlain [Hex.lower (c.toNat / 16), Hex.lower (c.toNat % 16)] :=
      .cons (le_toNat_lower (by omega)) (.cons (le_toNat_lower (by omega)) .nil)
    have hmark : ArePlain ['\\', 'u', '0', '0'] := by decide
    exact hmark.append hdigits
  next hplain => exact .cons (Nat.not_lt.mp hplain) .nil

theorem arePlain_quote (cs : List Char) : ArePlain (quote cs) := by
  have htext : ArePlain (cs.flatMap quoteChar) := by
    intro c hc
    obtain ⟨d, -, hd⟩ := List.mem_flatMap.mp hc
    exact arePlain_quoteChar d c hd
  exact .cons (by decide) (htext.append (by decide))

/-! ## Values -/

mutual

/-- **What is written for a value is plain.** -/
theorem arePlain_printList : ∀ v : Json, ArePlain (printList v)
  | .null | .bool true | .bool false => by decide
  | .number k => k.arePlain_print
  | .text s => arePlain_quote s.toList
  | .list items => .cons (by decide) ((arePlain_printItems items).append (by decide))
  | .object fields => .cons (by decide) ((arePlain_printFields fields).append (by decide))

theorem arePlain_printItems : ∀ items : List Json, ArePlain (printItems items)
  | [] => .nil
  | [v] => arePlain_printList v
  | v :: w :: rest =>
    (arePlain_printList v).append (.cons (by decide) (arePlain_printItems (w :: rest)))

theorem arePlain_printFields : ∀ fields : List (String × Json), ArePlain (printFields fields)
  | [] => .nil
  | [(n, v)] => (arePlain_quote n.toList).append (.cons (by decide) (arePlain_printList v))
  | (n, v) :: w :: rest =>
    (arePlain_quote n.toList).append (.cons (by decide)
      ((arePlain_printList v).append (.cons (by decide) (arePlain_printFields (w :: rest)))))

end

/-- What is written for a value stands on one line. -/
theorem not_mem_print {v : Json} (h : c.toNat < 0x20) : c ∉ v.print.toList := by
  rw [print, String.toList_ofList]
  exact fun hc => Nat.not_lt.mpr (arePlain_printList v c hc) h

end InletRegistry.Json
