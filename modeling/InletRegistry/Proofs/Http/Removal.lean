import InletRegistry.Http.Route
import InletRegistry.Proofs.Text.Decimal
import InletRegistry.Proofs.Text.Form

/-!
# What the query of a removal says

The query is accepted if it has each of the two known fields once at most; what else it has does not
matter (`parse_eq_ok_iff`). The version field counts without the blanks at its ends. If nothing is left, no
version is claimed, and otherwise what is left has to be a numeral of 64 bits: there is no text that is
passed over because it makes no sense.
-/

namespace InletRegistry.Http

open InletRegistry.Text

/-- How a version field is refused of which something is left that is no numeral of 64 bits. -/
def badVersion (kept : List Char) : Failure :=
  .badRequest ("version must be a non-negative integer, got '" ++ String.ofList kept ++ "'")

namespace RemovalQuery

variable {q p : RemovalQuery} {query : String} {pairs : List (String × String)}

/-- The fields are what the pairs of a query say, each once if at all. -/
structure Reads (q : RemovalQuery) (pairs : List (String × String)) : Prop where
  version : Form.values "version" pairs = q.version.toList
  clientId : Form.values "clientId" pairs = q.clientId.toList

/-- What a field is filled with is seen by its list. -/
theorem toList_eq_iff {α : Type} {filled given : Option α} : filled.toList = given.toList ↔ filled = given := by
  cases filled <;> cases given <;> simp

/-- A field that is filled already does not take another value. -/
theorem cons_append_ne_toList {α : Type} {filled given : Option α} {value : α} {values : List α}
    (h : filled.isSome = true) : filled.toList ++ value :: values ≠ given.toList := by
  obtain ⟨first, rfl⟩ := Option.isSome_iff_exists.mp h
  cases given with
  | none => exact List.cons_ne_nil _ _
  | some v => exact fun heq => absurd (congrArg List.length heq) (by simp)

/-- Taking pairs adds their values to the fields, as long as these have room for one. -/
theorem takeAll_eq_ok_iff : takeAll q pairs = .ok p ↔
    q.version.toList ++ Form.values "version" pairs = p.version.toList ∧
      q.clientId.toList ++ Form.values "clientId" pairs = p.clientId.toList := by
  -- A field is filled by the first pair of its name, so the fields at the start have to be any.
  induction pairs generalizing q with
  | nil =>
    obtain ⟨version, clientId⟩ := q
    obtain ⟨version', clientId'⟩ := p
    simp only [takeAll, Except.ok.injEq, mk.injEq, Form.values, List.filter_nil, List.map_nil,
      List.append_nil, toList_eq_iff]
  | cons pair pairs ih =>
    obtain ⟨name, value⟩ := pair
    by_cases hversion : name = "version"
    · subst hversion
      rw [Form.values_cons_self, Form.values_cons_ne (by decide)]
      by_cases hfilled : q.version.isSome = true
      · simp only [takeAll, take, hfilled, ↓reduceIte, reduceCtorEq, false_iff]
        exact fun h => cons_append_ne_toList hfilled h.1
      · obtain ⟨_ | version, clientId⟩ := q
        · simp only [takeAll, take, Option.isSome_none, Bool.false_eq_true, ↓reduceIte, ih]
          exact Iff.rfl
        · exact absurd rfl hfilled
    · by_cases hclient : name = "clientId"
      · subst hclient
        rw [Form.values_cons_self, Form.values_cons_ne (by decide)]
        by_cases hfilled : q.clientId.isSome = true
        · simp only [takeAll, take, hversion, hfilled, ↓reduceIte, reduceCtorEq, false_iff]
          exact fun h => cons_append_ne_toList hfilled h.2
        · obtain ⟨version, _ | clientId⟩ := q
          · simp only [takeAll, take, hversion, Option.isSome_none, Bool.false_eq_true, ↓reduceIte, ih]
            exact Iff.rfl
          · exact absurd rfl hfilled
      · rw [Form.values_cons_ne hversion, Form.values_cons_ne hclient]
        simp only [takeAll, take, hversion, hclient, ↓reduceIte, ih]

/-- **A query is accepted if no known field is repeated.** -/
theorem parse_eq_ok_iff : parse query = .ok q ↔ q.Reads (Form.decode query) := by
  rw [parse, takeAll_eq_ok_iff]
  exact ⟨fun h => ⟨h.1, h.2⟩, fun h => ⟨h.version, h.clientId⟩⟩

/-! ## The version that is claimed -/

/-- What a version field claims: no version, a number, or nothing that could be meant. -/
inductive Claims : Option String → Except Failure (Option Nat) → Prop where
  | absent : Claims none (.ok none)
  | blank {s : String} (hkept : TrimsTo s.toList []) : Claims (some s) (.ok none)
  | numeral {s : String} {kept : List Char} {v : Nat} (hkept : TrimsTo s.toList kept)
    (hnumeral : Decimal.Numeral kept v) (hfits : v < 2 ^ 64) : Claims (some s) (.ok (some v))
  /-- It is no numeral, or that of a greater number. -/
  | other {s : String} {kept : List Char} (hkept : TrimsTo s.toList kept) (hnonempty : kept ≠ [])
    (hnone : ∀ v, Decimal.Numeral kept v → 2 ^ 64 ≤ v) : Claims (some s) (.error (badVersion kept))

variable {version : Option String} {result : Except Failure (Option Nat)} {s : String}
  {kept : List Char} {v : Nat}

theorem read_eq_some_iff :
    Decimal.natural? Decimal.word64 kept = some v ↔ Decimal.Numeral kept v ∧ v < 2 ^ 64 := by
  rw [Decimal.natural?_eq_some_iff, Decimal.word64]
  exact and_congr_right fun _ => by omega

/-- What is kept of a version field decides what it comes to. -/
theorem claimedVersion_of_some (h : q.version = some s) (hkept : TrimsTo s.toList kept)
    (hnonempty : kept ≠ []) : q.claimedVersion =
      (Decimal.natural? Decimal.word64 kept).elim (.error (badVersion kept)) (.ok ∘ some) := by
  simp only [claimedVersion, h, trimsTo_iff.mp hkept, hnonempty, ↓reduceIte]
  cases Decimal.natural? Decimal.word64 kept <;> rfl

/-- **A version field is taken for what it claims.** -/
theorem claimedVersion_of_claims (h : Claims q.version result) : q.claimedVersion = result := by
  generalize hversion : q.version = version at h
  cases h with
  | absent => rw [claimedVersion, hversion]
  | blank hkept => simp only [claimedVersion, hversion, trimsTo_iff.mp hkept, ↓reduceIte]
  | @numeral _ kept _ hkept hnumeral hfits =>
    have hread := read_eq_some_iff.mpr ⟨hnumeral, hfits⟩
    have hnonempty : kept ≠ [] := by
      rintro rfl
      cases hread
    rw [claimedVersion_of_some hversion hkept hnonempty, hread]
    rfl
  | @other _ kept hkept hnonempty hnone =>
    have hread : Decimal.natural? Decimal.word64 kept = none :=
      Option.eq_none_iff_forall_ne_some.mpr fun v hv =>
        absurd (hnone v (read_eq_some_iff.mp hv).1) (Nat.not_le.mpr (read_eq_some_iff.mp hv).2)
    rw [claimedVersion_of_some hversion hkept hnonempty, hread]
    rfl

/-- There is nothing that a version field does not come to. -/
theorem exists_claims (version : Option String) : ∃ result, Claims version result := by
  cases version with
  | none => exact ⟨_, .absent⟩
  | some s =>
    have hkept := trimsTo_trimList s.toList
    by_cases hnil : trimList s.toList = []
    · exact ⟨_, .blank (hnil ▸ hkept)⟩
    by_cases hnumeral : ∃ v, Decimal.Numeral (trimList s.toList) v ∧ v < 2 ^ 64
    · obtain ⟨v, hnumeral, hfits⟩ := hnumeral
      exact ⟨_, .numeral hkept hnumeral hfits⟩
    · exact ⟨_, .other hkept hnil fun v hv => Nat.not_lt.mp fun hfits => hnumeral ⟨v, hv, hfits⟩⟩

theorem claimedVersion_eq_iff : q.claimedVersion = result ↔ Claims q.version result := by
  refine ⟨fun h => ?_, claimedVersion_of_claims⟩
  obtain ⟨claimed, hclaims⟩ := exists_claims q.version
  rwa [← h, claimedVersion_of_claims hclaims]

/-! ## When that is no version, and when a number -/

theorem claims_none_iff : Claims version (.ok none) ↔
    version = none ∨ ∃ s, version = some s ∧ TrimsTo s.toList [] := by
  constructor
  · intro h
    cases h with
    | absent => exact Or.inl rfl
    | blank hkept => exact Or.inr ⟨_, rfl, hkept⟩
  · rintro (rfl | ⟨s, rfl, hkept⟩)
    · exact .absent
    · exact .blank hkept

theorem claims_some_iff : Claims version (.ok (some v)) ↔
    ∃ s kept, version = some s ∧ TrimsTo s.toList kept ∧ Decimal.Numeral kept v ∧ v < 2 ^ 64 := by
  constructor
  · intro h
    cases h with
    | numeral hkept hnumeral hfits => exact ⟨_, _, rfl, hkept, hnumeral, hfits⟩
  · rintro ⟨s, kept, rfl, hkept, hnumeral, hfits⟩
    exact .numeral hkept hnumeral hfits

end RemovalQuery

end InletRegistry.Http
