import InletRegistry.Proofs.Text.Percent
import InletRegistry.Proofs.Text.Pieces
import InletRegistry.Proofs.Text.Spelling
import InletRegistry.Text.Percent

/-!
# Queries that are escaped once more

A query may be escaped on its way by somebody who does not know which of its characters are special. If
the three marks of a form are left alone, and percent signs and hexadecimal digits too, the query has the
same pairs afterwards (`decode_encode`): the marks stay where they are, no escape brings in another one,
and what stands between them is read as before.

A pair is written with every octet escaped, so whatever its name and its value are, there is a query that
says just that (`decode_encodePair`).
-/

namespace InletRegistry.Text.Form

open InletRegistry.Text.Percent

variable {safe : UInt8 → Bool} {mark c : Char}

/-- What escaping makes of a character. -/
def escaped (safe : UInt8 → Bool) (c : Char) : List Char := encodeOctets safe (Utf8.encodeChar c)

theorem escaped_ne_nil (c : Char) : escaped safe c ≠ [] :=
  encodeOctets_ne_nil (Utf8.encodeChar_ne_nil c)

/-- A character that no octet's escape has in it, and that is not escaped itself. -/
structure IsMark (safe : UInt8 → Bool) (mark : Char) : Prop where
  ascii : mark.toNat < 0x80
  safe : safe (UInt8.ofNat mark.toNat) = true
  percent : mark ≠ '%'
  digit : Hex.digit? mark = none

namespace IsMark

theorem escaped_self (h : IsMark safe mark) : escaped safe mark = [mark] :=
  encodeOctets_of_safe h.ascii h.safe

/-- A mark is not brought in by what is escaped. -/
theorem not_mem_escaped (h : IsMark safe mark) (hsafe : LeavesEscapes safe) (hc : c ≠ mark) :
    mark ∉ escaped safe c := by
  unfold escaped
  rcases encodeOctets_cases hsafe c with hkept | ⟨hescaped, -, -⟩
  · rw [hkept]
    exact fun hmem => hc (List.mem_singleton.mp hmem).symm
  · rw [hescaped]
    intro hmem
    obtain ⟨b, -, hb⟩ := List.mem_flatMap.mp hmem
    rcases digit?_of_mem_escape hb with hpercent | hdigit
    · exact h.percent hpercent
    · rw [h.digit] at hdigit
      cases hdigit

variable (h : IsMark safe mark) (hsafe : LeavesEscapes safe) (cs : List Char)

include h hsafe

/-- What stands in front of the first mark, -/
theorem takeWhile_escaped :
    (cs.flatMap (escaped safe)).takeWhile (· ≠ mark) =
      (cs.takeWhile (· ≠ mark)).flatMap (escaped safe) := by
  induction cs with
  | nil => rfl
  | cons c cs ih =>
    by_cases hc : c = mark
    · subst hc
      rw [List.flatMap_cons, h.escaped_self, List.singleton_append, List.takeWhile_cons_of_neg (by simp),
        List.takeWhile_cons_of_neg (by simp), List.flatMap_nil]
    · have hfront : ∀ d ∈ escaped safe c, decide (d ≠ mark) = true := fun d hd =>
        decide_eq_true fun heq => h.not_mem_escaped hsafe hc (heq ▸ hd)
      rw [List.flatMap_cons, List.takeWhile_append_of_pos hfront, ih,
        List.takeWhile_cons_of_pos (by simpa using hc), List.flatMap_cons]

/-- and what follows from there on. -/
theorem dropWhile_escaped :
    (cs.flatMap (escaped safe)).dropWhile (· ≠ mark) =
      (cs.dropWhile (· ≠ mark)).flatMap (escaped safe) := by
  induction cs with
  | nil => rfl
  | cons c cs ih =>
    by_cases hc : c = mark
    · subst hc
      rw [List.dropWhile_cons_of_neg (by simp), List.flatMap_cons, h.escaped_self,
        List.singleton_append, List.dropWhile_cons_of_neg (by simp)]
    · have hfront : ∀ d ∈ escaped safe c, decide (d ≠ mark) = true := fun d hd =>
        decide_eq_true fun heq => h.not_mem_escaped hsafe hc (heq ▸ hd)
      rw [List.flatMap_cons, List.dropWhile_append_of_pos hfront, ih,
        List.dropWhile_cons_of_pos (by simpa using hc)]

/-- What follows the first mark. -/
theorem drop_dropWhile_escaped :
    ((cs.flatMap (escaped safe)).dropWhile (· ≠ mark)).drop 1 =
      ((cs.dropWhile (· ≠ mark)).drop 1).flatMap (escaped safe) := by
  rw [h.dropWhile_escaped hsafe]
  cases hdrop : cs.dropWhile (· ≠ mark) with
  | nil => rfl
  | cons c rest =>
    have hhead : (cs.dropWhile (· ≠ mark)).head? = some c := by rw [hdrop, List.head?_cons]
    have hstop := List.head?_dropWhile_not (· ≠ mark) cs
    rw [hhead] at hstop
    obtain rfl : c = mark := by simpa using hstop
    rw [List.flatMap_cons, h.escaped_self, List.singleton_append, List.drop_one, List.tail_cons,
      List.drop_one, List.tail_cons]

end IsMark

/-- That a form's marks are left alone. -/
structure LeavesForms (safe : UInt8 → Bool) : Prop where
  escapes : LeavesEscapes safe
  ampersand : IsMark safe '&'
  equals : IsMark safe '='
  plus : IsMark safe '+'

namespace LeavesForms

variable (h : LeavesForms safe)

include h

/-- A name or a value is read the same. -/
theorem decodePart_escaped (cs : List Char) :
    decodePart (cs.flatMap (escaped safe)) = decodePart cs := by
  have hscan : ∀ s : Scan,
      ((cs.flatMap (escaped safe)).map fun c => if c = '+' then ' ' else c).foldl Scan.take s =
        (cs.map fun c => if c = '+' then ' ' else c).foldl Scan.take s := by
    induction cs with
    | nil => exact fun _ => rfl
    | cons c cs ih =>
      intro s
      rw [List.flatMap_cons, List.map_append, List.foldl_append, ih, List.map_cons, List.foldl_cons]
      refine congrArg (List.foldl Scan.take · _) ?_
      by_cases hc : c = '+'
      · subst hc
        rw [h.plus.escaped_self]
        rfl
      · have hnone : (escaped safe c).map (fun d => if d = '+' then ' ' else d) = escaped safe c := by
          refine (List.map_congr_left fun d hd => ?_).trans (List.map_id _)
          have hd' : d ≠ '+' := fun heq => h.plus.not_mem_escaped h.escapes hc (heq ▸ hd)
          exact if_neg hd'
        rw [hnone, if_neg hc]
        exact take_encodeOctets h.escapes s c
  rw [decodePart, Percent.decode, hscan, ← Percent.decode, decodePart]

theorem decodePair_escaped (cs : List Char) :
    decodePair (cs.flatMap (escaped safe)) = decodePair cs := by
  rw [decodePair, h.equals.takeWhile_escaped h.escapes, h.equals.drop_dropWhile_escaped h.escapes,
    h.decodePart_escaped, h.decodePart_escaped, decodePair]

/-- **A query that is escaped once more has the same pairs.** -/
theorem decode_encode (query : String) :
    decode (String.ofList (Percent.encode safe query.toList)) = decode query := by
  have hpieces : pieces '&' (Percent.encode safe query.toList) =
      (pieces '&' query.toList).map (·.flatMap (escaped safe)) := by
    rw [encode_eq_flatMap]
    exact pieces_flatMap h.ampersand.escaped_self
      (fun _ hc => h.ampersand.not_mem_escaped h.escapes hc) _
  have hempty : ∀ cs : List Char, decide (cs.flatMap (escaped safe) ≠ []) = decide (cs ≠ []) := by
    intro cs
    cases cs with
    | nil => rfl
    | cons c cs =>
      refine decide_eq_decide.mpr (iff_of_true (fun hnil => ?_) (List.cons_ne_nil c cs))
      exact escaped_ne_nil c (List.flatMap_eq_nil_iff.mp hnil c List.mem_cons_self)
  rw [decode, String.toList_ofList, hpieces, List.filter_map, List.map_map, decode]
  have hkept : (fun cs : List Char => decide (cs ≠ [])) ∘ (·.flatMap (escaped safe)) =
      fun cs => decide (cs ≠ []) := funext hempty
  rw [hkept]
  exact List.map_congr_left fun cs _ => h.decodePair_escaped cs

end LeavesForms

/-! ## Pairs that are written -/

/-- The values that a name has among pairs, in order. -/
def values (name : String) (pairs : List (String × String)) : List String :=
  (pairs.filter (·.1 = name)).map Prod.snd

theorem values_cons_self (name value : String) (pairs : List (String × String)) :
    values name ((name, value) :: pairs) = value :: values name pairs := by
  simp only [values, List.filter_cons, decide_true, ↓reduceIte, List.map_cons]

theorem values_cons_ne {name other value : String} (h : other ≠ name) (pairs : List (String × String)) :
    values name ((other, value) :: pairs) = values name pairs := by
  simp only [values, List.filter_cons, h, decide_false, Bool.false_eq_true, ↓reduceIte]

/-- A name or a value with every octet escaped. -/
def encodePart (s : String) : List Char := encode (fun _ => false) s.toList

/-- A pair as a query. -/
def encodePair (name value : String) : String :=
  String.ofList (encodePart name ++ '=' :: encodePart value)

theorem not_mem_encodePart (hpercent : mark ≠ '%') (hdigit : Hex.digit? mark = none) (s : String) :
    mark ∉ encodePart s := by
  have hspelled : Spelled (fun _ => false) (encodePart s) :=
    spelled_encodeOctets fun _ _ hsafe => absurd hsafe Bool.false_ne_true
  exact hspelled.not_mem rfl hpercent hdigit

theorem decodePart_encodePart (s : String) : decodePart (encodePart s) = s := by
  have hmasks : MasksEscapes fun _ => false := ⟨fun _ h => absurd h Bool.false_ne_true, rfl⟩
  have hplus : (encodePart s).map (fun c => if c = '+' then ' ' else c) = encodePart s := by
    refine (List.map_congr_left fun c hc => if_neg ?_).trans (List.map_id _)
    rintro rfl
    exact not_mem_encodePart (by decide) rfl s hc
  rw [decodePart, hplus, encodePart, encode, decode_encodeOctets hmasks, Utf8.lenient,
    Utf8.marked_encodeList, List.map_map]
  exact (congrArg String.ofList (List.map_id s.toList)).trans String.ofList_toList

/-- **Every pair can be written.** -/
theorem decode_encodePair (name value : String) : decode (encodePair name value) = [(name, value)] := by
  have hname : ∀ c ∈ encodePart name, decide (c ≠ '=') = true := by
    intro c hc
    apply decide_eq_true
    rintro rfl
    exact not_mem_encodePart (by decide) rfl name hc
  have hampersand : '&' ∉ encodePart name ++ '=' :: encodePart value := by
    intro hmem
    rcases List.mem_append.mp hmem with hmem | hmem
    · exact not_mem_encodePart (by decide) rfl name hmem
    · rcases List.mem_cons.mp hmem with heq | hmem
      · exact absurd heq (by decide)
      · exact not_mem_encodePart (by decide) rfl value hmem
  have hpair : decodePair (encodePart name ++ '=' :: encodePart value) = (name, value) := by
    rw [decodePair, List.takeWhile_append_of_pos hname, List.dropWhile_append_of_pos hname,
      List.takeWhile_cons_of_neg (by simp), List.dropWhile_cons_of_neg (by simp), List.append_nil,
      List.drop_one, List.tail_cons, decodePart_encodePart, decodePart_encodePart]
  rw [decode, encodePair, String.toList_ofList, pieces_of_not_mem hampersand,
    List.filter_cons_of_pos (by simp), List.filter_nil, List.map_cons, List.map_nil, hpair]

end InletRegistry.Text.Form
