import InletRegistry.Proofs.Lookup
import InletRegistry.Proofs.Text.Utf8
import InletRegistry.Routing.Hop

/-!
# What header fields keep

Setting a field, and leaving fields behind at a hop, changes what is found under those names and
under no others. So what a node reads of a request is the same before and after a hop, unless it
reads the mark of the hop itself.

Which values can be read as texts, and which texts can stand in a header, is said by their characters.
-/

namespace InletRegistry

open InletRegistry.Lookup InletRegistry.Text

namespace Http

/-! ## Values and texts -/

/-- The characters of a value that can be read: visible ASCII, spaces and tabs. -/
def IsReadable (c : Char) : Prop := c.toNat = 9 ∨ 0x20 ≤ c.toNat ∧ c.toNat < 0x7F

/-- The characters that may stand in a header: no control characters but tabs. -/
def MayStand (c : Char) : Prop := c.toNat = 9 ∨ 0x20 ≤ c.toNat ∧ c.toNat ≠ 0x7F

section Values

variable {value : List UInt8} {text : List Char} {s : String}

/-- Octets of ASCII, read one by one, are written as they were. -/
theorem encodeList_map_octets (h : ∀ b ∈ value, b.toNat < 0x80) :
    Utf8.encodeList (value.map fun b => Char.ofNat b.toNat) = value := by
  induction value with
  | nil => rfl
  | cons b value ih =>
    have hb := h b List.mem_cons_self
    have hchar := Utf8.toNat_ofNat_of_ascii hb
    have hfirst : Utf8.encodeChar (Char.ofNat b.toNat) = [b] := by
      rw [Utf8.encodeChar_of_ascii (by omega), hchar, UInt8.ofNat_toNat]
    have hrest := ih fun b hb => h b (List.mem_cons_of_mem _ hb)
    rw [Utf8.encodeList] at hrest ⊢
    rw [List.map_cons, List.flatMap_cons, hfirst, hrest, List.singleton_append]

/-- Characters of ASCII, written, are read one by one as they were. -/
theorem map_octets_encodeList (h : ∀ c ∈ text, c.toNat < 0x80) :
    (Utf8.encodeList text).map (fun b => Char.ofNat b.toNat) = text := by
  induction text with
  | nil => rfl
  | cons c text ih =>
    have hc := h c List.mem_cons_self
    have hrest := ih fun c hc => h c (List.mem_cons_of_mem _ hc)
    rw [Utf8.encodeList] at hrest ⊢
    rw [List.flatMap_cons, Utf8.encodeChar_of_ascii hc, List.singleton_append, List.map_cons,
      Utf8.toNat_octet_of_ascii hc, Char.ofNat_toNat, hrest]

/-- A value is read as a text exactly if it is the octets of that text, and the text is readable. -/
theorem headerText?_eq_some_iff :
    headerText? value = some text ↔ value = Utf8.encodeList text ∧ ∀ c ∈ text, IsReadable c := by
  have hreadable : ∀ b : UInt8, (b = 9 || (0x20 ≤ b && b < 0x7F)) = true ↔
      b.toNat = 9 ∨ 0x20 ≤ b.toNat ∧ b.toNat < 0x7F := fun b => by
    simp [UInt8.le_iff_toNat_le, UInt8.lt_iff_toNat_lt, ← UInt8.toNat_inj]
  unfold headerText?
  constructor
  · intro h
    split at h
    next hall =>
      obtain rfl := Option.some.inj h
      have hoctet := fun b hb => (hreadable b).mp (List.all_eq_true.mp hall b hb)
      have hascii : ∀ b ∈ value, b.toNat < 0x80 := fun b hb => by
        have := hoctet b hb
        omega
      have hvalue := encodeList_map_octets hascii
      refine ⟨hvalue.symm, fun c hc => ?_⟩
      obtain ⟨b, hb, rfl⟩ := List.mem_map.mp hc
      rw [IsReadable, Utf8.toNat_ofNat_of_ascii (hascii b hb)]
      exact hoctet b hb
    next => cases h
  · rintro ⟨rfl, hchars⟩
    have hascii : ∀ c ∈ text, c.toNat < 0x80 := fun c hc => by
      have := hchars c hc
      unfold IsReadable at this
      omega
    rw [if_pos, map_octets_encodeList hascii]
    refine List.all_eq_true.mpr fun b hb => (hreadable b).mpr ?_
    obtain ⟨c, hc, hbc⟩ := List.mem_flatMap.mp hb
    rw [Utf8.toNat_of_mem_encodeChar (hascii c hc) hbc]
    exact hchars c hc

/-- A text makes a value, that of its octets, exactly if all of it may stand in a header. -/
theorem headerValue?_eq_some_iff :
    headerValue? s = some value ↔ value = Utf8.encode s ∧ ∀ c ∈ s.toList, MayStand c := by
  have hstands : ∀ b : UInt8, (b = 9 || (0x20 ≤ b && b ≠ 0x7F)) = true ↔
      b.toNat = 9 ∨ 0x20 ≤ b.toNat ∧ b.toNat ≠ 0x7F := fun b => by
    simp [UInt8.le_iff_toNat_le, ← UInt8.toNat_inj]
  have hchar : ∀ c : Char, (∀ b ∈ Utf8.encodeChar c, (b = 9 || (0x20 ≤ b && b ≠ 0x7F)) = true) ↔
      MayStand c := by
    intro c
    simp only [hstands]
    by_cases hascii : c.toNat < 0x80
    · have hoctet : UInt8.ofNat c.toNat ∈ Utf8.encodeChar c := by
        rw [Utf8.encodeChar_of_ascii hascii]
        exact List.mem_cons_self
      constructor
      · intro h
        have := h _ hoctet
        rwa [Utf8.toNat_of_mem_encodeChar hascii hoctet] at this
      · intro h b hb
        rw [Utf8.toNat_of_mem_encodeChar hascii hb]
        exact h
    · constructor
      · intro _
        exact Or.inr ⟨by omega, by omega⟩
      · intro _ b hb
        have := Utf8.le_of_mem_encodeChar (Nat.not_lt.mp hascii) hb
        exact Or.inr ⟨by omega, by omega⟩
  have hall : (Utf8.encode s).all (fun b => b = 9 || (0x20 ≤ b && b ≠ 0x7F)) = true ↔
      ∀ c ∈ s.toList, MayStand c := by
    rw [List.all_eq_true, Utf8.encode, Utf8.encodeList]
    constructor
    · exact fun h c hc => (hchar c).mp fun b hb => h b (List.mem_flatMap.mpr ⟨c, hc, hb⟩)
    · intro h b hb
      obtain ⟨c, hc, hbc⟩ := List.mem_flatMap.mp hb
      exact (hchar c).mpr (h c hc) b hbc
  rw [headerValue?, ← hall]
  constructor
  · intro h
    split at h
    next hvalue => exact ⟨(Option.some.inj h).symm, hvalue⟩
    next => cases h
  · rintro ⟨rfl, hvalue⟩
    exact if_pos hvalue

end Values

end Http

namespace Http.Headers

variable {h : Headers} {name other : String} {names : List String} {value : List UInt8}

/-- A field that is set has its value in front of no other. -/
theorem first?_set_ne (hne : name ≠ other) : (h.set other value).first? name = h.first? name := by
  have hother : (name == other) = false := beq_eq_false_iff_ne.mpr hne
  have hkept : (h.remove other).lookup name = h.lookup name := lookup_filter_ne hne
  simp only [first?, set, List.lookup_append, hkept, List.lookup_cons, hother, List.lookup_nil,
    Option.or_none]

theorem first?_without (hname : name ∉ names) : (h.without names).first? name = h.first? name := by
  unfold first? without
  induction h with
  | nil => rfl
  | cons f h ih =>
    obtain ⟨k, v⟩ := f
    by_cases hk : names.contains k = true
    · have hne : (name == k) = false := by
        refine beq_eq_false_iff_ne.mpr ?_
        rintro rfl
        exact hname (List.contains_iff_mem.mp hk)
      simp only [List.filter_cons, hk, Bool.not_true, Bool.false_eq_true, ↓reduceIte,
        List.lookup_cons, hne]
      exact ih
    · simp only [List.filter_cons, hk, Bool.not_false, ↓reduceIte, List.lookup_cons]
      rw [ih]

theorem has_set_self : (h.set name value).has name = true := by
  simp only [has, set, List.any_append, List.any_cons, decide_true, Bool.true_or, Bool.or_true]

theorem has_set_ne (hne : name ≠ other) : (h.set other value).has name = h.has name := by
  have hlast : decide (other = name) = false := decide_eq_false (Ne.symm hne)
  simp only [has, set, remove, List.any_append, List.any_cons, List.any_nil, hlast, Bool.or_false]
  induction h with
  | nil => rfl
  | cons f h ih =>
    by_cases hf : f.1 = other
    · have hfirst : decide (f.1 = name) = false := decide_eq_false fun heq => hne (heq.symm.trans hf)
      simp only [List.filter_cons, hf, ne_eq, not_true_eq_false, decide_false, Bool.false_eq_true,
        ↓reduceIte, List.any_cons, ih]
      rw [← hf, hfirst, Bool.false_or]
    · simp only [List.filter_cons, ne_eq, hf, not_false_eq_true, decide_true, ↓reduceIte,
        List.any_cons, ih]

/-! ## All values of a name -/

/-- The first value is the first of all values. -/
theorem first?_eq_head? (h : Headers) (name : String) : h.first? name = (h.values name).head? := by
  induction h with
  | nil => rfl
  | cons f h ih =>
    obtain ⟨key, value⟩ := f
    rw [first?, values] at ih
    rw [first?, values, List.lookup_cons, List.filter_cons]
    by_cases hkey : key = name
    · subst hkey
      simp only [beq_self_eq_true, decide_true, ↓reduceIte, List.map_cons, List.head?_cons]
    · have hname : (name == key) = false := beq_eq_false_iff_ne.mpr (Ne.symm hkey)
      simp only [hname, hkey, decide_false, Bool.false_eq_true, ↓reduceIte]
      exact ih

/-- A field that is set stands beside the values of every other name. -/
theorem values_set_ne (hne : name ≠ other) : (h.set other value).values name = h.values name := by
  have hlast : [(other, value)].filter (·.1 = name) = [] := by
    rw [List.filter_cons, if_neg (by simpa using Ne.symm hne), List.filter_nil]
  have hkept : (h.remove other).filter (·.1 = name) = h.filter (·.1 = name) := by
    rw [remove, List.filter_filter]
    refine List.filter_congr fun f _ => ?_
    by_cases hf : f.1 = name
    · simp only [hf, decide_true, Bool.true_and, ne_eq, hne, not_false_eq_true]
    · simp only [hf, decide_false, Bool.false_and]
  rw [values, set, List.filter_append, hkept, hlast, List.append_nil, values]

/-- What is not left behind has the values that it had. -/
theorem values_without (hname : name ∉ names) : (h.without names).values name = h.values name := by
  have hkept : (h.without names).filter (·.1 = name) = h.filter (·.1 = name) := by
    rw [without, List.filter_filter]
    refine List.filter_congr fun f _ => ?_
    by_cases hf : f.1 = name
    · have hnot : names.contains f.1 = false := by
        rw [hf]
        exact Bool.eq_false_iff.mpr fun hmem => hname (List.contains_iff_mem.mp hmem)
      simp only [hf, decide_true, Bool.true_and, hf ▸ hnot, Bool.not_false]
    · simp only [hf, decide_false, Bool.false_and]
  rw [values, hkept, values]

/-- Without the field that was set the others are as they were. -/
theorem remove_set : (h.set name value).remove name = h.remove name := by
  have hlast : remove [(name, value)] name = [] := by
    rw [remove, List.filter_cons, if_neg (by simp), List.filter_nil]
  have hkept : (h.remove name).remove name = h.remove name := by
    rw [remove, remove, List.filter_filter]
    exact List.filter_congr fun f _ => Bool.and_self _
  rw [set, remove, List.filter_append, ← remove, ← remove, hkept, hlast, List.append_nil]

end Http.Headers

namespace Routing

open InletRegistry.Http

variable {r : Request}

/-- The coordinator sees that the request was sent on, whatever it said of itself. -/
theorem isForwarded_onward (r : Request) : isForwarded (onward r) = true := Headers.has_set_self

/-- What stands neither for a single connection nor for the hop goes on as it came. -/
theorem first?_onward {name : String} (hhop : name ∉ hopByHop) (hmark : name ≠ forwardedHeader) :
    (onward r).headers.first? name = r.headers.first? name := by
  simp only [onward, forwardHeaders, Headers.first?_set_ne hmark, Headers.first?_without hhop]

@[simp] theorem relay_status (r : Response) : (relay r).status = r.status := rfl

@[simp] theorem relay_body (r : Response) : (relay r).body = r.body := rfl

end Routing

end InletRegistry
