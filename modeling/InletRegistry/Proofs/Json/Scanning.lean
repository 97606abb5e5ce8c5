import InletRegistry.Json.Printer
import InletRegistry.Json.Token
import InletRegistry.Proofs.Json.Numeral
import InletRegistry.Proofs.Text.Percent

/-!
# Written values are scanned

The tokens of a value (`tokens`) are what the scanner finds in the text that is written for it. That is
said of pieces of text that may stand anywhere between two tokens (`Scanner.Yields`): what is in progress
at the end of one, a numeral or a literal, ends where a mark follows, so pieces may be put together with
marks between them (`Yields.mark`).

Numbers are the only values of which the text may not say what they are. Here that is a condition
(`IsLegible`), which the integers of 64 bits meet.
-/

namespace InletRegistry.Json

open InletRegistry.Text

/-! ## What is written legibly -/

/-- Whether a number is read back from what is written for it. -/
structure Number.IsLegible (k : Number) : Prop where
  begins : ∃ c rest, k.print = c :: rest ∧ (Decimal.isDigit c || c == '-') = true ∧
    ∀ d ∈ rest, Scanner.isNumeralChar d = true
  read : ∃ m, Numeral.ofChars? k.print = some m ∧ m.number? = some k

theorem Number.isLegible_natural {n : Nat} (hn : n ≤ Decimal.word64) : (natural n).IsLegible := by
  have hall : ∀ c ∈ Decimal.digits n, Decimal.isDigit c = true := fun c hc =>
    Decimal.isDigit_of_mem_digits hc
  obtain ⟨c, rest, hdigits⟩ : ∃ c rest, Decimal.digits n = c :: rest :=
    List.exists_cons_of_ne_nil Nat.toDigits_ne_nil
  refine ⟨⟨c, rest, hdigits, ?_, ?_⟩, _, Numeral.ofChars?_digits n, Numeral.number?_digits hn⟩
  · rw [hall c (hdigits ▸ List.mem_cons_self), Bool.true_or]
  · intro d hd
    simp only [Scanner.isNumeralChar, hall d (hdigits ▸ List.mem_cons_of_mem c hd), Bool.true_or]

theorem Number.isLegible_negative {n : Nat} (hpos : 1 ≤ n) (hn : n ≤ Nat.pow 2 63) :
    (negative n).IsLegible := by
  refine ⟨⟨'-', Decimal.digits n, rfl, rfl, fun d hd => ?_⟩, _, Numeral.ofChars?_negative n,
    Numeral.number?_negative hpos hn⟩
  simp only [Scanner.isNumeralChar, Decimal.isDigit_of_mem_digits hd, Bool.true_or]

mutual

/-- Whether all numbers of a value are read back from what is written for them. -/
def IsLegible : Json → Prop
  | .null | .bool _ | .text _ => True
  | .number k => k.IsLegible
  | .list items => AreLegible items
  | .object fields => AreLegibleFields fields

def AreLegible : List Json → Prop
  | [] => True
  | v :: rest => v.IsLegible ∧ AreLegible rest

def AreLegibleFields : List (String × Json) → Prop
  | [] => True
  | (_, v) :: rest => v.IsLegible ∧ AreLegibleFields rest

end

/-! ## The tokens of a value -/

mutual

def tokens : Json → List Token
  | .null => [.scalar .null]
  | .bool b => [.scalar (.bool b)]
  | .number k => [.scalar (.number (some k))]
  | .text s => [.scalar (.text (some s))]
  | .list items => .mark .listStart :: (itemTokens items ++ [.mark .listEnd])
  | .object fields => .mark .objectStart :: (fieldTokens fields ++ [.mark .objectEnd])

def itemTokens : List Json → List Token
  | [] => []
  | [v] => tokens v
  | v :: rest => tokens v ++ .mark .comma :: itemTokens rest

/-- The tokens of the fields of an object. -/
def fieldTokens : List (String × Json) → List Token
  | [] => []
  | [(n, v)] => .scalar (.text (some n)) :: .mark .colon :: tokens v
  | (n, v) :: rest =>
    .scalar (.text (some n)) :: .mark .colon :: (tokens v ++ .mark .comma :: fieldTokens rest)

end

namespace Scanner

variable {s : Scanner} {c : Char} {m : Mark} {cs ds : List Char} {done : List Char}
  {old new more : List Token}

/-! ## Marks -/

/-- A mark is part of nothing that may be in progress. -/
theorem apart_of_mark (h : Mark.ofChar? c = some m) :
    isSpace c = false ∧ isWordChar c = false ∧ isNumeralChar c = false := by
  have hc : c = '[' ∨ c = ']' ∨ c = '\x7b' ∨ c = '\x7d' ∨ c = ',' ∨ c = ':' := by
    unfold Mark.ofChar? at h
    grind
  rcases hc with rfl | rfl | rfl | rfl | rfl | rfl <;> exact ⟨rfl, rfl, rfl⟩

theorem begin?_mark (h : Mark.ofChar? c = some m) :
    begin? old c = some ⟨.between, .mark m :: old⟩ := by
  simp only [begin?, (apart_of_mark h).1, Bool.false_eq_true, ↓reduceIte, h]

/-- A mark ends what is in progress. -/
theorem take?_mark (hs : s.close? = some old) (hc : Mark.ofChar? c = some m) :
    s.take? (some c) = some ⟨.between, .mark m :: old⟩ := by
  obtain ⟨-, hword, hnumeral⟩ := apart_of_mark hc
  obtain ⟨mode, tokens⟩ := s
  cases mode with
  | between =>
    obtain rfl := Option.some.inj hs
    exact begin?_mark hc
  | word done =>
    simp only [take?, takeChar?, hword, Bool.false_eq_true, ↓reduceIte, hs, Option.bind_some]
    exact begin?_mark hc
  | numeral done =>
    simp only [take?, takeChar?, hnumeral, Bool.false_eq_true, ↓reduceIte, hs, Option.bind_some]
    exact begin?_mark hc
  | text t => cases hs

/-! ## Pieces of text -/

/-- Whether characters are scanned as some tokens, wherever they begin between two tokens. -/
def Yields (cs : List Char) (new : List Token) : Prop :=
  ∀ old, ∃ s : Scanner, run? ⟨.between, old⟩ (cs.map some) = some s ∧
    s.close? = some (new.reverse ++ old)

theorem Yields.nil : Yields [] [] := fun old => ⟨⟨.between, old⟩, rfl, rfl⟩

/-- Two pieces with a mark between them. -/
theorem Yields.mark (h : Yields cs new) (hc : Mark.ofChar? c = some m) (hrest : Yields ds more) :
    Yields (cs ++ c :: ds) (new ++ .mark m :: more) := by
  intro old
  obtain ⟨s, hs, hclose⟩ := h old
  obtain ⟨u, hu, huclose⟩ := hrest (.mark m :: (new.reverse ++ old))
  refine ⟨u, ?_, ?_⟩
  · rw [List.map_append, List.map_cons, run?_append, hs, Option.bind_some, run?,
      take?_mark hclose hc]
    exact hu
  · rw [huclose, List.reverse_append, List.reverse_cons, List.append_assoc, List.append_assoc,
      List.singleton_append]

/-! ## Texts -/

/-- The scanner inside a text that is sound so far. -/
def reading (done : List Char) (old : List Token) : Scanner := ⟨.text ⟨done, true, none, .closed⟩, old⟩

theorem takeText?_digit {owed value d : Nat} (hc : Hex.digit? c = some d) (howed : 1 < owed) :
    takeText? ⟨done, true, none, .unit owed value⟩ old c =
      some ⟨.text ⟨done, true, none, .unit (owed - 1) (value * 16 + d)⟩, old⟩ := by
  simp only [takeText?, hc, Nat.not_le.mpr howed, ↓reduceIte]

/-- The last digit of a code unit that is no half of a pair. -/
theorem takeText?_last {value d : Nat} (hc : Hex.digit? c = some d) (hunit : value * 16 + d < 0xD800) :
    takeText? ⟨done, true, none, .unit 1 value⟩ old c =
      some (reading (Char.ofNat (value * 16 + d) :: done) old) := by
  have hhigh : ¬(0xD800 ≤ value * 16 + d ∧ value * 16 + d < 0xDC00) := by omega
  have hlow : ¬(0xDC00 ≤ value * 16 + d ∧ value * 16 + d < 0xE000) := by omega
  simp only [takeText?, hc, Nat.le_refl, ↓reduceIte, OpenText.pushUnit, hhigh, hlow]
  rfl

/-- A character that is written by its number is read as that character. -/
theorem run?_number {n : Nat} (h : n < 0x20) :
    run? (reading done old) [some '\\', some 'u', some '0', some '0', some (Hex.lower (n / 16)),
      some (Hex.lower (n % 16))] = some (reading (Char.ofNat n :: done) old) := by
  have hhigh := Hex.digit?_lower (n := n / 16) (by omega)
  have hlow := Hex.digit?_lower (n := n % 16) (by omega)
  have hzero : Hex.digit? '0' = some 0 := rfl
  have hunit : n / 16 * 16 + n % 16 = n := by omega
  have hopens : run? (reading done old) [some '\\', some 'u'] =
      some ⟨.text ⟨done, true, none, .unit 4 0⟩, old⟩ := rfl
  show run? (reading done old) ([some '\\', some 'u'] ++ [some '0', some '0',
    some (Hex.lower (n / 16)), some (Hex.lower (n % 16))]) = _
  rw [run?_append, hopens, Option.bind_some]
  simp only [run?, take?, takeChar?]
  rw [takeText?_digit hzero (by decide)]
  simp only [Nat.zero_mul, Nat.add_zero, Nat.reduceSub]
  rw [takeText?_digit hzero (by decide)]
  simp only [Nat.zero_mul, Nat.add_zero, Nat.reduceSub]
  rw [takeText?_digit hhigh (by decide)]
  simp only [Nat.zero_mul, Nat.zero_add, Nat.reduceSub]
  rw [takeText?_last hlow (by omega), hunit]

/-- What is written for a character inside a text is read as that character. -/
theorem run?_quoteChar (c : Char) :
    run? (reading done old) ((quoteChar c).map some) = some (reading (c :: done) old) := by
  unfold quoteChar
  split
  next h => subst h; rfl
  next hquote =>
  split
  next h => subst h; rfl
  next hbackslash =>
  split
  next h => subst h; rfl
  next =>
  split
  next h => subst h; rfl
  next =>
  split
  next h => subst h; rfl
  next =>
  split
  next h => subst h; rfl
  next =>
  split
  next h => subst h; rfl
  next =>
  split
  next hcontrol =>
    have hread : _ = some (reading (Char.ofNat c.toNat :: done) old) := run?_number hcontrol
    rw [Char.ofNat_toNat] at hread
    exact hread
  next hplain =>
    simp only [List.map_cons, List.map_nil, reading, run?, take?, takeChar?, takeText?, hquote,
      hbackslash, hplain, ↓reduceIte]
    rfl

/-- What is written for characters inside a text is read as those characters. -/
theorem run?_quoteChars (cs : List Char) :
    run? (reading done old) ((cs.flatMap quoteChar).map some) =
      some (reading (cs.reverse ++ done) old) := by
  induction cs generalizing done with
  | nil => rfl
  | cons c cs ih =>
    rw [List.flatMap_cons, List.map_append, run?_append, run?_quoteChar, Option.bind_some, ih,
      List.reverse_cons, List.append_assoc, List.singleton_append]

theorem yields_quote (s : String) : Yields (quote s.toList) [.scalar (.text (some s))] := by
  intro old
  refine ⟨⟨.between, .scalar (.text (some s)) :: old⟩, ?_, rfl⟩
  have hopens : run? ⟨.between, old⟩ [some '"'] = some (reading [] old) := rfl
  have hcloses : run? (reading s.toList.reverse old) [some '"'] =
      some ⟨.between, .scalar (.text (some s)) :: old⟩ := by
    show some (Scanner.mk .between (.scalar (.text (some (String.ofList s.toList.reverse.reverse))) ::
      old)) = _
    rw [List.reverse_reverse, String.ofList_toList]
  show run? ⟨.between, old⟩
    ([some '"'] ++ (s.toList.flatMap quoteChar ++ ['"']).map some) = _
  rw [run?_append, hopens, Option.bind_some, List.map_append, run?_append, run?_quoteChars,
    Option.bind_some, List.append_nil]
  exact hcloses

/-! ## Numbers -/

theorem run?_numeral (cs : List Char) (h : ∀ c ∈ cs, isNumeralChar c = true) :
    run? ⟨.numeral done, old⟩ (cs.map some) = some ⟨.numeral (cs.reverse ++ done), old⟩ := by
  induction cs generalizing done with
  | nil => rfl
  | cons c cs ih =>
    have hc := h c List.mem_cons_self
    rw [List.map_cons, run?]
    simp only [take?, takeChar?, hc, ↓reduceIte]
    rw [ih fun d hd => h d (List.mem_cons_of_mem c hd), List.reverse_cons, List.append_assoc,
      List.singleton_append]

/-- A numeral begins with a digit or a sign, and nothing else does. -/
theorem begin?_numeral (h : (Decimal.isDigit c || c == '-') = true) :
    begin? old c = some ⟨.numeral [c], old⟩ := by
  have hspace : isSpace c = false := by
    rw [Bool.eq_false_iff]
    intro hspace
    simp only [isSpace, Bool.or_eq_true, beq_iff_eq] at hspace
    rcases hspace with ((rfl | rfl) | rfl) | rfl <;> cases h
  have hmark : Mark.ofChar? c = none := by
    cases hmark : Mark.ofChar? c with
    | none => rfl
    | some m =>
      have hnumeral := (apart_of_mark hmark).2.2
      simp only [isNumeralChar, Bool.or_eq_false_iff] at hnumeral
      rw [hnumeral.1.1.1.1.1, hnumeral.1.1.1.1.2] at h
      cases h
  have hquote : c ≠ '"' := by
    rintro rfl
    cases h
  simp only [begin?, hspace, Bool.false_eq_true, ↓reduceIte, hmark, hquote, h]

theorem yields_number {k : Number} (h : k.IsLegible) :
    Yields k.print [.scalar (.number (some k))] := by
  intro old
  obtain ⟨⟨c, rest, hprint, hfirst, hrest⟩, m, hnumeral, hnumber⟩ := h
  refine ⟨⟨.numeral (rest.reverse ++ [c]), old⟩, ?_, ?_⟩
  · rw [hprint, List.map_cons, run?]
    simp only [take?, takeChar?, begin?_numeral hfirst]
    exact run?_numeral rest hrest
  · have hdone : (rest.reverse ++ [c]).reverse = k.print := by
      rw [hprint, List.reverse_append, List.reverse_reverse, List.reverse_singleton,
        List.singleton_append]
    simp only [close?, hdone, hnumeral, Option.map_some, hnumber, List.reverse_singleton,
      List.singleton_append]

/-! ## Values -/

/-- A piece between two marks. -/
theorem Yields.enclosed {c d : Char} {m k : Mark} (h : Yields cs new) (hc : Mark.ofChar? c = some m)
    (hd : Mark.ofChar? d = some k) :
    Yields (c :: (cs ++ [d])) (.mark m :: (new ++ [.mark k])) :=
  Yields.nil.mark hc (h.mark hd .nil)

mutual

/-- The text that is written for a value is scanned as its tokens. -/
theorem yields_value : ∀ v : Json, v.IsLegible → Yields v.printList v.tokens
  | .null, _ => fun _ => ⟨_, rfl, rfl⟩
  | .bool true, _ => fun _ => ⟨_, rfl, rfl⟩
  | .bool false, _ => fun _ => ⟨_, rfl, rfl⟩
  | .number _, h => yields_number h
  | .text s, _ => yields_quote s
  | .list items, h => (yields_items items h).enclosed (c := '[') (d := ']') rfl rfl
  | .object fields, h => (yields_fields fields h).enclosed (c := '\x7b') (d := '\x7d') rfl rfl

theorem yields_items : ∀ items : List Json, AreLegible items →
    Yields (printItems items) (itemTokens items)
  | [], _ => .nil
  | [v], h => yields_value v h.1
  | v :: w :: rest, h => (yields_value v h.1).mark (c := ',') rfl (yields_items (w :: rest) h.2)

theorem yields_fields : ∀ fields : List (String × Json), AreLegibleFields fields →
    Yields (printFields fields) (fieldTokens fields)
  | [], _ => .nil
  | [(n, v)], h => (yields_quote n).mark (c := ':') rfl (yields_value v h.1)
  | (n, v) :: w :: rest, h =>
    (yields_quote n).mark (c := ':') rfl
      ((yields_value v h.1).mark (c := ',') rfl (yields_fields (w :: rest) h.2))

end

end Scanner

/-- **The text that is written for a value has just its tokens.** -/
theorem scan?_printList {v : Json} (h : v.IsLegible) :
    Token.scan? ((printList v).map some) = some v.tokens := by
  obtain ⟨s, hs, hclose⟩ := Scanner.yields_value v h []
  simp only [Token.scan?, Scanner.start, hs, Option.bind_some, hclose, Option.map_some,
    List.append_nil, List.reverse_reverse]

end InletRegistry.Json
