import InletRegistry.Proofs.Locks.Acting

/-!
# Locks exclude, whatever is evicted

Mutexes go out of the table while other claims arrive, wait, lapse and depart, and a resource that is
asked for again gets a new mutex. `exclusion_survives_eviction` says that this never tears the
claims on one resource apart: whoever holds its lock or is on the way to it stands on the one mutex
that the table holds now, and at most one of them has it.

It is read off soundness, which every event keeps; that the mutexes are exclusive is what the events
assume of them.
-/

namespace InletRegistry.LockTable

open InletRegistry.Locks InletRegistry.Time

/-- **Exclusion survives eviction.** After every course of events, of all claims on a resource at
most one has been handed the lock or holds it; every claim refers to the mutex that the table holds
under its resource; and so any two claims on one resource refer to the same mutex. -/
theorem exclusion_survives_eviction {events : List Event} {t : LockTable}
    (h : LockTable.empty.run? events = some t) :
    (∀ c ∈ t.claims, ∀ d ∈ t.claims, c.id = d.id → c.stage.owns = true → d.stage.owns = true →
      c = d) ∧
    (∀ c ∈ t.claims, t.mutexes.lookup c.id = some c.mutex) ∧
    (∀ c ∈ t.claims, ∀ d ∈ t.claims, c.id = d.id → c.mutex = d.mutex) := by
  have hs : t.Sound := Sound.empty.run h
  refine ⟨?_, hs.seated, ?_⟩
  · intro c hc d hd hid hcown hdown
    exact hs.owner_unique hc hd hid hcown hdown
  · intro c hc d hd hid
    exact hs.mutex_eq_of_id hc hd hid

/-- The lock is released while a second claim waits and a third arrives: the second is handed it, and
the third waits for the same mutex. -/
theorem exclusion_survives_eviction_handover :
    ∃ t : LockTable,
      LockTable.empty.run?
        [.arrive "p1" (.ofSeconds 1), .ask 0 1, .arrive "p1" (.ofSeconds 1), .ask 0 3, .release 1,
          .arrive "p1" (.ofSeconds 1), .hand 3, .depart 1, .ask 5 5, .lookBack "p1", .resume 3] =
        some t ∧
      t.claims.map (·.stage) = [.held, .waiting 1005] ∧
      (∀ c ∈ t.claims, ∀ d ∈ t.claims, c.id = d.id → c.stage.owns = true → d.stage.owns = true →
        c = d) ∧
      (∀ c ∈ t.claims, t.mutexes.lookup c.id = some c.mutex) ∧
      (∀ c ∈ t.claims, ∀ d ∈ t.claims, c.id = d.id → c.mutex = d.mutex) := by
  have hrun : LockTable.empty.run?
      [.arrive "p1" (.ofSeconds 1), .ask 0 1, .arrive "p1" (.ofSeconds 1), .ask 0 3, .release 1,
        .arrive "p1" (.ofSeconds 1), .hand 3, .depart 1, .ask 5 5, .lookBack "p1", .resume 3] =
      some ⟨[("p1", 0)], [⟨3, "p1", 0, .ofSeconds 1, .held⟩,
        ⟨5, "p1", 0, .ofSeconds 1, .waiting 1005⟩], [], 6⟩ := by
    decide
  exact ⟨_, hrun, rfl, exclusion_survives_eviction hrun⟩

end InletRegistry.LockTable
