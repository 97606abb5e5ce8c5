import InletRegistry.Proofs.Registry.Lineage

/-!
# Changes take place one after another

However the steps of any number of requests fall between each other, the changes that take effect
might as well have been made one at a time, each as a whole, in the order of their executions: none is
lost, none is made twice, and none builds on a version that another has replaced.

Versions are natural numbers here; they agree with machine words as long as no version reaches the
greatest one.
-/

namespace InletRegistry.Registry.Traffic

open InletRegistry.Access InletRegistry.Cluster InletRegistry.Time

variable {t u : Traffic} {events : List Event}

/-- What it means that the changes between two moments took place one after another. -/
structure Serialized (t u : Traffic) (cs : List Commit) : Prop extends Recorded t u cs where
  /-- Every inlet that was there has a lineage. -/
  lineage : ∀ (id : String) (e : Stored), t.store.find? id = some e → Lineage id e cs u.store
  /-- No other inlet has a change, or comes to be there. -/
  absent : ∀ id : String, t.store.find? id = none →
    (∀ c ∈ cs, c.order.id ≠ id) ∧ u.store.find? id = none

/-- **Changes take place one after another.** For every course of events from a node that has taken no
request, the changes in the order of their executions lead from the first store to the last, each of
them lawful as a whole where it stands; they are the changes of exactly those jobs whose order was
carried out, one for each; and what they do to an inlet is its lineage. -/
theorem changes_serialize {kind : String} {policy : Policy} {patience : Duration}
    {membership : Membership} {store : Store} {fresh : Nat}
    (h : (start kind policy patience membership store fresh).run? events = some t) :
    Serialized (start kind policy patience membership store fresh) t
      ((start kind policy patience membership store fresh).commits events) := by
  have hrecorded := recorded Orderly.start rfl h
  refine ⟨hrecorded, ?_, ?_⟩
  · intro id e he
    exact hrecorded.chain.lineage hrecorded.lawful he
  · intro id hnone
    exact hrecorded.chain.absent hrecorded.lawful hnone

/-- A node of its own with one inlet. -/
def oneInlet : Traffic :=
  start "input port" [⟨"*", "*", [.read, .write]⟩] (.ofSeconds 1) ⟨.standalone, none⟩
    ⟨[("p1", ⟨⟨"p1", "in", "", .stopped, 1⟩, 1⟩)]⟩ 0

/-- An update that gives the inlet another name and claims the first version. -/
def rename (name : String) : Operation :=
  .update (some ⟨some ⟨some 1, some "c"⟩, some ⟨some "p1", some name, none, none, none⟩⟩)

/-- Two callers update the inlet from the same version, and a third does not wait for its lock. -/
def rivals : List Event :=
  [.request "a" "p1" (rename "x"), .request "b" "p1" (rename "y"),
    .request "c" "p1" (.delete none none), .act 0 .go, .act 1 .go, .act 2 .go, .locks (.ask 0 1),
    .locks (.ask 0 3), .locks (.ask 0 5), .act 0 .go, .act 0 .go, .act 0 .go, .act 2 .lapse,
    .act 0 .go, .act 0 .go, .act 0 .go, .locks (.hand 3), .act 0 .go, .locks (.resume 3),
    .act 1 .go, .act 1 .go, .act 1 .go, .act 1 .go, .act 1 .go]

/-- Of the rivals one succeeds. -/
theorem changes_serialize_rivals :
    ∃ t, oneInlet.run? rivals = some t ∧
      (oneInlet.commits rivals).map (fun c => (c.job, c.result.revision.version)) = [(0, some 2)] ∧
      Serialized oneInlet t (oneInlet.commits rivals) := by
  have hruns : (oneInlet.run? rivals).isSome = true := by decide
  obtain ⟨t, ht⟩ := Option.isSome_iff_exists.mp hruns
  exact ⟨t, ht, by decide, changes_serialize ht⟩

end InletRegistry.Registry.Traffic
