import InletRegistry.Http.Frame
import InletRegistry.Proofs.Http.Header

/-!
# What crosses a hop

The fields of a message are many, several may have the same name, and the letter case of a name does not
count. A request that is sent on has the fields with which it came, in their order, but for those that
belong to a single connection, and it has the mark of the hop once, whatever it said of itself before. A
response that is relayed has all but those of a connection. So no value of a field that goes from end to
end is lost, merged with another or put in front of another (`fields_cross_hops`).

Fields are compared here as they are spelled, by names that are the same up to letter case; what is read
of a message has its names in lower case (`nameRead_of_field?`).
-/

namespace InletRegistry

open InletRegistry.Text

namespace Http

/-! ## Names, whatever their letter case -/

variable {name : String} {c : Char} {f : Header} {fields : Headers} {line : List UInt8}

/-- A name as it is read. -/
def nameRead (name : String) : String := String.ofList (name.toList.map Head.lower)

/-- That two names are the same up to letter case. -/
abbrev SameName (name other : String) : Prop := nameRead name = nameRead other

theorem lower_lower (c : Char) : Head.lower (Head.lower c) = Head.lower c := by
  unfold Head.lower
  by_cases hupper : 'A' ≤ c ∧ c ≤ 'Z'
  · have hle : 65 ≤ c.toNat ∧ c.toNat ≤ 90 := hupper
    have hnot : ¬ ('A' ≤ Char.ofNat (c.toNat + 32) ∧ Char.ofNat (c.toNat + 32) ≤ 'Z') := by
      intro h
      have hlarge : (Char.ofNat (c.toNat + 32)).toNat ≤ 90 := h.2
      rw [Utf8.toNat_ofNat_of_ascii (by omega)] at hlarge
      omega
    rw [if_pos hupper, if_neg hnot]
  · rw [if_neg hupper, if_neg hupper]

theorem nameRead_of_lower (cs : List Char) :
    nameRead (String.ofList (cs.map Head.lower)) = String.ofList (cs.map Head.lower) := by
  rw [nameRead, String.toList_ofList, List.map_map]
  exact congrArg String.ofList (List.map_congr_left fun c _ => lower_lower c)

theorem nameRead_nameRead (name : String) : nameRead (nameRead name) = nameRead name :=
  nameRead_of_lower name.toList

/-- What is read of a line of a message has its name in lower case. -/
theorem nameRead_of_field? (h : Head.field? line = some f) : nameRead f.1 = f.1 := by
  unfold Head.field? at h
  simp only at h
  split at h
  next c cs _ _ =>
    rw [Option.some.injEq] at h
    rw [← h]
    exact nameRead_of_lower (c :: cs)
  next => cases h

namespace Headers

/-- Fields as they are read, from how they are spelled. -/
def read (fields : Headers) : Headers := fields.map fun f => (nameRead f.1, f.2)

/-- The values of a name in their order, whatever the letter case of names. -/
def valuesOf (fields : Headers) (name : String) : List (List UInt8) :=
  (fields.filter fun f => SameName f.1 name).map Prod.snd

/-- The fields whose names are not those of others, whatever the letter case. -/
def besides (fields : Headers) (names : List String) : Headers :=
  fields.filter fun f => ∀ name ∈ names, ¬ SameName f.1 name

variable {names : List String} {value : List UInt8}

theorem valuesOf_read (fields : Headers) (name : String) :
    fields.read.valuesOf name = fields.valuesOf name := by
  rw [valuesOf, read, List.filter_map, List.map_map, valuesOf]
  have hkept : fields.filter ((fun f => decide (SameName f.1 name)) ∘ fun f => (nameRead f.1, f.2)) =
      fields.filter fun f => SameName f.1 name :=
    List.filter_congr fun f _ => by
      simp only [Function.comp, SameName, nameRead_nameRead]
  rw [hkept]
  rfl

/-- To leave fields behind is to leave them behind however they are spelled. -/
theorem without_read (hnames : ∀ name ∈ names, nameRead name = name) (fields : Headers) :
    fields.read.without names = (fields.besides names).read := by
  have hkept : fields.filter ((fun f => !names.contains f.1) ∘ fun f => (nameRead f.1, f.2)) =
      fields.filter fun f => ∀ name ∈ names, ¬ SameName f.1 name := by
    refine List.filter_congr fun f _ => ?_
    rw [Function.comp, Bool.eq_iff_iff, Bool.not_eq_true', decide_eq_true_iff, ← Bool.not_eq_true,
      List.contains_iff_mem]
    refine ⟨fun hnot name hname heq => hnot ?_, fun hnot hmem => hnot _ hmem ?_⟩
    · rw [← hnames name hname, ← heq] at hname
      exact hname
    · exact (nameRead_nameRead f.1).symm
  rw [without, read, List.filter_map, hkept]
  rfl

/-- Fields are left behind by several names, or by one after the other. -/
theorem without_without (h : Headers) (names others : List String) :
    (h.without names).without others = h.without (names ++ others) := by
  rw [without, without, List.filter_filter, without]
  refine List.filter_congr fun f _ => ?_
  rw [Bool.and_comm, ← Bool.not_or, List.contains_append]

theorem remove_eq_without (h : Headers) (name : String) : h.remove name = h.without [name] := by
  refine List.filter_congr fun f _ => ?_
  rw [Bool.eq_iff_iff, decide_eq_true_iff, Bool.not_eq_true', ← Bool.not_eq_true,
    List.contains_iff_mem, List.mem_singleton]

theorem valuesOf_append (h : Headers) (more : Headers) (name : String) :
    Headers.valuesOf (h ++ more) name = h.valuesOf name ++ more.valuesOf name := by
  rw [valuesOf, List.filter_append, List.map_append, valuesOf, valuesOf]

/-- Of a name, all values stay or none. -/
theorem valuesOf_besides (fields : Headers) (names : List String) (name : String) :
    (fields.besides names).valuesOf name =
      if ∃ other ∈ names, SameName name other then [] else fields.valuesOf name := by
  rw [valuesOf, besides, List.filter_filter]
  split
  next hsame =>
    obtain ⟨other, hother, heq⟩ := hsame
    have hnone : fields.filter (fun f => decide (SameName f.1 name) &&
        decide (∀ name ∈ names, ¬ SameName f.1 name)) = [] := by
      refine List.filter_eq_nil_iff.mpr fun f _ hboth => ?_
      rw [Bool.and_eq_true, decide_eq_true_iff, decide_eq_true_iff] at hboth
      exact hboth.2 other hother (hboth.1.trans heq)
    rw [hnone, List.map_nil]
  next hother =>
    rw [valuesOf]
    refine congrArg (List.map Prod.snd) (List.filter_congr fun f _ => ?_)
    by_cases hsame : SameName f.1 name
    · have hall : ∀ other ∈ names, ¬ SameName f.1 other := fun other hmem heq =>
        hother ⟨other, hmem, hsame.symm.trans heq⟩
      rw [decide_eq_true hsame, decide_eq_true hall, Bool.and_self]
    · rw [decide_eq_false hsame, Bool.false_and]

end Headers

end Http

namespace Routing

open InletRegistry.Http

/-! ## Both ways -/

theorem nameRead_hopByHop : ∀ name ∈ hopByHop, nameRead name = name := by decide

theorem nameRead_forwardedHeader : nameRead forwardedHeader = forwardedHeader := by decide

/-- The mark of a hop. -/
def mark : Header := (forwardedHeader, headerValue "true")

/-- What goes on is what stays, and the mark behind it. -/
theorem forwardHeaders_eq (h : Headers) :
    forwardHeaders h = h.without (hopByHop ++ [forwardedHeader]) ++ [mark] := by
  rw [forwardHeaders, Headers.set, Headers.remove_eq_without, Headers.without_without]
  rfl

theorem forwardHeaders_read (fields : Headers) :
    forwardHeaders fields.read = (fields.besides (hopByHop ++ [forwardedHeader])).read ++ [mark] := by
  have hnames : ∀ name ∈ hopByHop ++ [forwardedHeader], nameRead name = name := fun name hname => by
    rcases List.mem_append.mp hname with hhop | hmark
    · exact nameRead_hopByHop name hhop
    · rw [List.mem_singleton.mp hmark, nameRead_forwardedHeader]
  rw [forwardHeaders_eq, Headers.without_read hnames]

/-- A second hop changes nothing. -/
theorem forwardHeaders_forwardHeaders (h : Headers) :
    forwardHeaders (forwardHeaders h) = forwardHeaders h := by
  have hmark : Headers.without [mark] (hopByHop ++ [forwardedHeader]) = [] := by decide
  have hkept : ∀ names, Headers.without (h.without names) names = h.without names := fun names => by
    rw [Headers.without, Headers.without, List.filter_filter]
    exact List.filter_congr fun f _ => Bool.and_self _
  rw [forwardHeaders_eq, forwardHeaders_eq, Headers.without, List.filter_append]
  rw [Headers.without] at hmark
  rw [hmark, List.append_nil, ← Headers.without, hkept]

/-- Of a name there is the mark, or what it had. -/
theorem valuesOf_forwardHeaders (fields : Headers) (name : String) :
    (forwardHeaders fields.read).valuesOf name =
      if SameName name forwardedHeader then [headerValue "true"]
      else if ∃ other ∈ hopByHop, SameName name other then [] else fields.valuesOf name := by
  rw [forwardHeaders_read, Headers.valuesOf_append, Headers.valuesOf_read, Headers.valuesOf_besides]
  by_cases hmark : SameName name forwardedHeader
  · have hleft : ∃ other ∈ hopByHop ++ [forwardedHeader], SameName name other :=
      ⟨forwardedHeader, List.mem_concat_self, hmark⟩
    have hsame : decide (SameName mark.1 name) = true := decide_eq_true hmark.symm
    have hvalue : Headers.valuesOf [mark] name = [headerValue "true"] := by
      rw [Headers.valuesOf, List.filter_cons, if_pos hsame]
      rfl
    rw [if_pos hleft, if_pos hmark, hvalue, List.nil_append]
  · have hleft : (∃ other ∈ hopByHop ++ [forwardedHeader], SameName name other) ↔
        ∃ other ∈ hopByHop, SameName name other := by
      refine ⟨fun ⟨other, hother, hsame⟩ => ?_, fun ⟨other, hother, hsame⟩ =>
        ⟨other, List.mem_append_left _ hother, hsame⟩⟩
      rcases List.mem_append.mp hother with hhop | hlast
      · exact ⟨other, hhop, hsame⟩
      · exact absurd (List.mem_singleton.mp hlast ▸ hsame) hmark
    have hother : ¬ decide (SameName mark.1 name) = true := fun hsame =>
      hmark (of_decide_eq_true hsame).symm
    have hnone : Headers.valuesOf [mark] name = [] := by
      rw [Headers.valuesOf, List.filter_cons, if_neg hother]
      rfl
    rw [if_neg hmark, hnone, List.append_nil]
    simp only [hleft]

theorem relay_read (status : Nat) (fields : Headers) (body : List UInt8) :
    relay ⟨status, fields.read, body⟩ = ⟨status, (fields.besides hopByHop).read, body⟩ := by
  rw [relay, Headers.without_read nameRead_hopByHop]

/-- **What goes from end to end crosses a hop.** For all fields of a request, however their names are
spelled: what is sent on has those that belong to no connection and are not the mark of a hop, all of
them and in their order, and behind them the mark, once; so of every name there are the values that the
request has of it, or none if it belongs to a connection, or the mark's. To send that on once more changes
nothing. For all fields of an answer: what is relayed has the status and the body of the answer and those
of its fields that belong to no connection, all of them and in their order. -/
theorem fields_cross_hops (fields answered : Headers) (status : Nat) (body : List UInt8) :
    forwardHeaders fields.read =
        (fields.besides (hopByHop ++ [forwardedHeader])).read ++
          [(forwardedHeader, headerValue "true")] ∧
      (∀ name, (forwardHeaders fields.read).valuesOf name =
        if SameName name forwardedHeader then [headerValue "true"]
        else if ∃ other ∈ hopByHop, SameName name other then [] else fields.valuesOf name) ∧
      forwardHeaders (forwardHeaders fields.read) = forwardHeaders fields.read ∧
      relay ⟨status, answered.read, body⟩ = ⟨status, (answered.besides hopByHop).read, body⟩ ∧
      ∀ name, (relay ⟨status, answered.read, body⟩).headers.valuesOf name =
        if ∃ other ∈ hopByHop, SameName name other then [] else answered.valuesOf name := by
  refine ⟨forwardHeaders_read fields, valuesOf_forwardHeaders fields, forwardHeaders_forwardHeaders _,
    relay_read status answered body, fun name => ?_⟩
  rw [relay_read, Headers.valuesOf_read, Headers.valuesOf_besides]

end Routing

end InletRegistry
