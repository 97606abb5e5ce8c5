import InletRegistry.Http.Route
import InletRegistry.Proofs.Text.Utf8
import Mathlib.Data.Bool.AllAny
import Mathlib.Data.List.TakeWhile

/-!
# Targets as they are written

What is read of a request line has no end of a path in its path and no fragment anywhere
(`written_parse`). A target of which that is true, and whose path begins with a slash, is read back from
its path and its query (`parse_pathAndQuery`).

A path is that of an inlet if it has three segments, of which the first is empty and the last is not
(`ofPath?_eq_inlet_iff`).
-/

namespace InletRegistry.Http

open InletRegistry.Text

namespace Target

variable {t : Target} {s : String} {cs rest : List Char} {c : Char}

/-- That a target has in its parts what may stand there. -/
structure Written (t : Target) : Prop where
  path : ∀ c ∈ t.rawPath.toList, 0x20 < c.toNat ∧ c ≠ '?' ∧ c ≠ '#'
  query : ∀ q ∈ t.query, ∀ c ∈ q.toList, 0x20 < c.toNat ∧ c ≠ '#'

theorem written_ofPathAndQuery (h : ∀ c ∈ cs, 0x20 < c.toNat) : (ofPathAndQuery cs).Written := by
  have hseen : ∀ c ∈ cs.takeWhile (· ≠ '#'), 0x20 < c.toNat ∧ c ≠ '#' := fun c hc =>
    ⟨h c ((List.takeWhile_prefix _).subset hc), by simpa using List.mem_takeWhile_imp hc⟩
  have hpath : ∀ c ∈ (cs.takeWhile (· ≠ '#')).takeWhile (· ≠ '?'),
      0x20 < c.toNat ∧ c ≠ '?' ∧ c ≠ '#' := fun c hc =>
    have hboth := hseen c ((List.takeWhile_prefix _).subset hc)
    ⟨hboth.1, by simpa using List.mem_takeWhile_imp hc, hboth.2⟩
  unfold ofPathAndQuery
  simp only
  split
  next =>
    exact ⟨by simpa only [String.toList_ofList] using hpath, nofun⟩
  next query hquery =>
    refine ⟨by simpa only [String.toList_ofList] using hpath, ?_⟩
    rintro q hq c hc
    obtain rfl := Option.some.inj hq
    rw [String.toList_ofList] at hc
    exact hseen c ((List.dropWhile_suffix _).subset (hquery ▸ List.mem_cons_of_mem _ hc))

theorem suffix_of_afterScheme? (h : afterScheme? cs = some rest) : rest <:+ cs := by
  induction cs with
  | nil => cases h
  | cons c cs ih =>
    unfold afterScheme? at h
    split at h
    next front heq =>
      obtain ⟨rfl, rfl⟩ := List.cons.inj heq
      obtain rfl := Option.some.inj h
      exact ⟨[':', '/', '/'], rfl⟩
    next d ds _ heq =>
      obtain ⟨rfl, rfl⟩ := List.cons.inj heq
      split at h
      · exact (ih h).trans (List.suffix_cons _ _)
      · cases h
    next heq => cases heq

/-- **What is read of a request line is written**, since nothing in a request line is unseen. -/
theorem written_parse (h : ∀ c ∈ s.toList, 0x20 < c.toNat) : (parse s).Written := by
  unfold parse
  split
  next rest hafter =>
    have hrest : ∀ c ∈ rest.dropWhile (!endsAuthority ·), 0x20 < c.toNat := fun c hc =>
      h c ((suffix_of_afterScheme? hafter).subset ((List.dropWhile_suffix _).subset hc))
    simp only
    split
    · exact ⟨List.all_iff_forall_prop.mp (by decide), nofun⟩
    · exact written_ofPathAndQuery hrest
  next => exact written_ofPathAndQuery h

/-- What stands behind the path. -/
def tail (t : Target) : List Char :=
  match t.query with
  | some q => '?' :: q.toList
  | none => []

theorem toList_pathAndQuery (t : Target) : t.pathAndQuery.toList = t.rawPath.toList ++ t.tail := by
  obtain ⟨path, query⟩ := t
  cases query with
  | none => exact (List.append_nil _).symm
  | some q =>
    simp only [pathAndQuery, tail, String.toList_append, List.append_assoc]
    rfl

theorem Written.tail (h : t.Written) : ∀ c ∈ t.tail, 0x20 < c.toNat ∧ c ≠ '#' := by
  obtain ⟨path, query⟩ := t
  cases query with
  | none => exact nofun
  | some q =>
    intro c hc
    rcases List.mem_cons.mp hc with rfl | hquery
    · decide
    · exact h.query q rfl c hquery

/-- **A target is read back** from its path and its query. -/
theorem parse_pathAndQuery (h : t.Written) (hslash : t.rawPath.toList.head? = some '/') :
    parse t.pathAndQuery = t := by
  have hnone : afterScheme? (t.rawPath.toList ++ t.tail) = none := by
    cases hpath : t.rawPath.toList with
    | nil =>
      rw [hpath] at hslash
      cases hslash
    | cons c more =>
      rw [hpath] at hslash
      obtain rfl := Option.some.inj hslash
      rfl
  have hfront : ∀ c ∈ t.rawPath.toList, decide (c ≠ '?') = true := fun c hc =>
    decide_eq_true (h.path c hc).2.1
  have hall : ∀ c ∈ t.rawPath.toList ++ t.tail, decide (c ≠ '#') = true := fun c hc =>
    decide_eq_true ((List.mem_append.mp hc).elim (fun hp => (h.path c hp).2.2) fun ht => (h.tail c ht).2)
  have htail : t.tail.takeWhile (· ≠ '?') = [] ∧ t.tail.dropWhile (· ≠ '?') = t.tail := by
    unfold tail
    cases t.query <;> exact ⟨rfl, rfl⟩
  simp only [parse, toList_pathAndQuery, hnone, ofPathAndQuery, List.takeWhile_eq_self_iff.mpr hall,
    List.takeWhile_append_of_pos hfront, List.dropWhile_append_of_pos hfront, htail, List.append_nil,
    String.ofList_toList]
  obtain ⟨path, query⟩ := t
  cases query with
  | none => rfl
  | some q => exact congrArg (fun s => (⟨path, some s⟩ : Target)) String.ofList_toList

end Target

namespace Route

variable {path : String} {segment : List Char}

theorem ofPath?_eq_inlet_iff : ofPath? path = some (.inlet segment) ↔
    segments path.toList = [[], "input-ports".toList, segment] ∧ segment ≠ [] := by
  unfold ofPath?
  constructor
  · intro h
    split at h
    next => cases h
    next =>
      split at h
      next => cases h
      next =>
        split at h
        next collection last hsegments =>
          split at h
          next hinlet =>
            obtain ⟨rfl, hsome⟩ := hinlet
            cases h
            exact ⟨hsegments, hsome⟩
          next => cases h
        next => cases h
  · rintro ⟨hsegments, hsome⟩
    have hhealth : path ≠ "/health" := by
      rintro rfl
      have hthree : (segments "/health".toList).length = 3 := by rw [hsegments]; rfl
      exact absurd hthree (by decide)
    have hstatus : path ≠ "/cluster/status" := by
      rintro rfl
      have hsecond : (segments "/cluster/status".toList)[1]? = some "input-ports".toList := by
        rw [hsegments]
        rfl
      exact absurd hsecond (by decide)
    simp only [hhealth, hstatus, ↓reduceIte, hsegments, hsome, ne_eq, not_false_eq_true, and_self]

end Route

/-- What an id is read from has the id's characters and no more. -/
theorem decodeId_eq_ok_iff {segment : List Char} {id : String} :
    decodeId segment = .ok id ↔ Utf8.marked (Percent.decode segment) = id.toList.map some := by
  rw [← Utf8.strict?_eq_some_iff, decodeId]
  cases hread : Utf8.strict? (Percent.decode segment) with
  | none => exact iff_of_false nofun nofun
  | some cs =>
    simp only [Except.ok.injEq, Option.some.injEq]
    refine ⟨fun hid => ?_, fun hid => ?_⟩
    · rw [← hid, String.toList_ofList]
    · rw [hid, String.ofList_toList]

end InletRegistry.Http
