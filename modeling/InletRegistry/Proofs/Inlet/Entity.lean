import InletRegistry.Inlet.Entity
import InletRegistry.Proofs.Json.RoundTrip

/-!
# Entities come back

What a response says of an inlet is also a request: an update that proposes for the inlet what it is,
under the claim of the version that was told. The text that is written for the entity of an inlet is read
as that entity (`Entity.ofSource?_ofVersioned`), and the entity as that update
(`UpdateRequest.read?_ofVersioned`), whatever the texts of the inlet are made of.
-/

namespace InletRegistry

open InletRegistry.Text InletRegistry.Json

/-- The proposal that an inlet be what it is. -/
def Proposal.restating (i : Inlet) : Proposal :=
  ⟨some i.id, some i.name, some i.comments, some i.state, some i.concurrentTasks⟩

/-- The update that proposes for an inlet what it is. -/
def UpdateRequest.restating (v : Versioned Inlet) : UpdateRequest :=
  ⟨some v.revision.toTag, some (.restating v.state)⟩

variable {base : String} {v : Versioned Inlet} {i : Inlet} {r : Revision} {t : RevisionTag}

/-! ## The parts of an entity -/

theorem RevisionTag.ofSource?_toJson (h : ∀ n, t.version = some n → n ≤ Decimal.word64) :
    ofSource? (Source.ofJson t.toJson) = some t := by
  obtain ⟨version, clientId⟩ := t
  cases version with
  | none => cases clientId <;> rfl
  | some n =>
    have hn : Document.optional (Source.toNatural? Decimal.word64)
        (some (Source.ofJson (.natural n))) = some (some n) := Source.optional_ofNatural? (v := some n) h
    cases clientId with
    | none =>
      show ofFields? [some (Source.ofJson (.natural n)), none] = _
      simp only [ofFields?, hn]
      rfl
    | some c =>
      show ofFields? [some (Source.ofJson (.natural n)), some (Source.ofJson (.text c))] = _
      simp only [ofFields?, hn]
      rfl

theorem RevisionTag.isLegible_toJson (h : ∀ n, t.version = some n → n ≤ Decimal.word64) :
    t.toJson.IsLegible := by
  obtain ⟨version, clientId⟩ := t
  cases version with
  | none =>
    cases clientId with
    | none => exact trivial
    | some c => exact ⟨trivial, trivial⟩
  | some n =>
    have hn : (Json.natural n).IsLegible := Number.isLegible_natural (h n rfl)
    cases clientId with
    | none => exact ⟨hn, trivial⟩
    | some c => exact ⟨hn, trivial, trivial⟩

theorem Inlet.runState?_ofJson (s : RunState) :
    runState? (Source.ofJson (.text s.name)) = some s := by
  cases s <;> rfl

theorem Inlet.tasks?_ofJson (n : UInt32) :
    tasks? (Source.ofJson (.natural n.toNat)) = some n := by
  have hn : n.toNat ≤ Decimal.word32 := Nat.le_of_lt_succ n.toNat_lt
  show (Source.toNatural? Decimal.word32 (Source.ofJson (.natural n.toNat))).map UInt32.ofNat = some n
  rw [Source.toNatural?_natural hn, Option.map_some, UInt32.ofNat_toNat]

/-- A component that is kept is what was written. -/
theorem Inlet.value?_toComponent (levels : Nat) :
    (Source.ofJson i.toComponent).value? (levels + 1) = some i.toComponent := by
  simp only [toComponent, Json.natural, Source.ofJson, Source.ofFields, Source.value?,
    Source.fieldValues?, Option.map_some, sortFields, List.foldl, insertSorted, String.reduceEq,
    String.reduceLT, ↓reduceIte]

/-- A component is read as a proposal that changes nothing. -/
theorem Proposal.ofSource?_toComponent :
    ofSource? (Source.ofJson i.toComponent) = some (.restating i) := by
  have hfields : (Source.ofJson i.toComponent).fields? Inlet.fieldNames 0 =
      some [some (Source.ofJson (.text i.id)), some (Source.ofJson (.text i.name)),
        some (Source.ofJson (.text i.comments)), some (Source.ofJson (.text i.state.name)),
        some (Source.ofJson (.natural i.concurrentTasks.toNat))] := rfl
  have hstate : Document.optional Inlet.runState? (some (Source.ofJson (.text i.state.name))) =
      some (some i.state) := congrArg (Option.map some) (Inlet.runState?_ofJson i.state)
  have htasks : Document.optional Inlet.tasks?
      (some (Source.ofJson (.natural i.concurrentTasks.toNat))) = some (some i.concurrentTasks) :=
    congrArg (Option.map some) (Inlet.tasks?_ofJson i.concurrentTasks)
  simp only [ofSource?, hfields, hstate, htasks]
  rfl

/-! ## The entity -/

namespace Entity

theorem isLegible_ofVersioned (h : ∀ n, v.revision.version = some n → n ≤ Decimal.word64) :
    (ofVersioned base v).toJson.IsLegible := by
  have htasks : (Json.natural v.state.concurrentTasks.toNat).IsLegible := by
    refine Number.isLegible_natural (Nat.le_trans (Nat.le_of_lt v.state.concurrentTasks.toNat_lt) ?_)
    decide
  have hcomponent : v.state.toComponent.IsLegible := ⟨trivial, htasks, trivial, trivial, trivial, trivial⟩
  exact ⟨RevisionTag.isLegible_toJson h, trivial, trivial, hcomponent, trivial⟩

/-- **An entity that is written and read is what it was.** -/
theorem ofSource?_ofVersioned (h : ∀ n, v.revision.version = some n → n ≤ Decimal.word64) :
    ofSource? (Source.ofJson (ofVersioned base v).toJson) = some (ofVersioned base v) := by
  have hfields : (Source.ofJson (ofVersioned base v).toJson).fields? fieldNames 0 =
      some [some (Source.ofJson v.revision.toTag.toJson), some (Source.ofJson (.text v.state.id)),
        some (Source.ofJson (.text (resourceUri base collection v.state.id))),
        some (Source.ofJson v.state.toComponent)] := rfl
  have htag : Document.optional RevisionTag.ofSource?
      (some (Source.ofJson v.revision.toTag.toJson)) = some (some v.revision.toTag) :=
    congrArg (Option.map some) (RevisionTag.ofSource?_toJson h)
  have hcomponent : Document.optional (fun c => Source.value? componentDepth c)
      (some (Source.ofJson v.state.toComponent)) = some (some v.state.toComponent) :=
    congrArg (Option.map some) (Inlet.value?_toComponent 125)
  simp only [ofSource?, hfields, htag, hcomponent]
  rfl

theorem toUpdate?_ofVersioned : (ofVersioned base v).toUpdate? = some (.restating v) := by
  simp only [toUpdate?, ofVersioned, Proposal.ofSource?_toComponent, Option.map_some,
    UpdateRequest.restating]

end Entity

/-- **What is written for an inlet is read as the update that proposes for it what it is.** -/
theorem UpdateRequest.read?_ofVersioned (h : ∀ n, v.revision.version = some n → n ≤ Decimal.word64) :
    read? (Entity.ofVersioned base v).toJson.octets = some (.restating v) := by
  rw [read?, Source.read?_octets (Entity.isLegible_ofVersioned h), Option.bind_some,
    Entity.ofSource?_ofVersioned h, Option.bind_some, Entity.toUpdate?_ofVersioned]

end InletRegistry
