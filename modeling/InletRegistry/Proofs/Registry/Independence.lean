import InletRegistry.Proofs.Registry.Besides

/-!
# Requests for different inlets

All inlets share one store, one table of locks, one trail and one count of identifiers. Still a request
for one inlet has nothing to do with what happens at another: two requests may be answered in either
order, whatever stands in the table of locks; and where orders wait and locks are held for any length of
time, every request is answered as if nobody had ever turned to another inlet, at the same event and in
the same words.
-/

namespace InletRegistry.Registry.Service

open InletRegistry.Access InletRegistry.Locks InletRegistry.Time

variable {s : Service}

theorem Sound.start {kind : String} {policy : Policy} {patience : Duration} {store : Store}
    {fresh : Nat} : (start kind policy patience store fresh).Sound :=
  ⟨LockTable.Sound.empty, nofun, nofun⟩

/-- That requests for different inlets have nothing to do with each other. -/
structure Independent (s : Service) : Prop where
  /-- In either order two requests for two inlets have the same outcomes, but for generated identifiers
  of clients, and they leave the same store, the same locks and the same entries in the trail. -/
  either_order : ∀ (i j : String), i ≠ j → ∀ (n m n' m' : Nat) (p q : String) (a b : Operation),
    a.unsigned (s.answer n p i a).1 = a.unsigned ((s.answer n' q j b).2.answer m' p i a).1 ∧
      b.unsigned ((s.answer n p i a).2.answer m q j b).1 = b.unsigned (s.answer n' q j b).1 ∧
      ((s.answer n p i a).2.answer m q j b).2.Alike ((s.answer n' q j b).2.answer m' p i a).2
  /-- Whatever course things take, they take the same course without all that is about an inlet: all
  others find their entries, locks and deadlines as they would; -/
  undisturbed : ∀ (i : String) (events : List Event) (u : Service), s.run? events = some u →
    (s.besides i).run? (s.others i events) = some (u.besides i)
  /-- and whatever is asked of another inlet then, or befalls a claim on its lock, is possible and has its
  reply as if there had never been anything about the inlet. -/
  replies : ∀ (i : String) (events : List Event) (u : Service), s.run? events = some u →
    ∀ e, u.concerns i e = false →
      ((u.besides i).next? e).map Prod.fst = (u.next? e).map Prod.fst

/-- **Requests for different inlets are independent**, whatever is stored, and whoever holds or awaits
which locks. -/
theorem requests_are_independent (h : s.Sound) : s.Independent where
  either_order := fun _ _ hne n m n' m' p q a b => answer_comm h hne n m n' m' p q a b
  undisturbed := fun i _ _ hrun => run?_others h hrun i
  replies := by
    intro i events u hrun e he
    rw [next?_besides (h.run hrun) he, Option.map_map]
    rfl

/-- A service of two inlets that everybody may read and write. -/
def twoInlets : Service :=
  start "input port" [⟨"*", "*", [.read, .write]⟩] (.ofSeconds 1)
    ⟨[("p1", ⟨⟨"p1", "in", "", .stopped, 1⟩, 1⟩), ("p2", ⟨⟨"p2", "in", "", .stopped, 1⟩, 4⟩)]⟩ 0

/-- An update that gives an inlet another name. -/
def retitle (id : String) (version : Nat) : Operation :=
  .update (some ⟨some ⟨some version, none⟩, some ⟨some id, some "out", none, none, none⟩⟩)

/-- While the lock of one inlet is held and awaited, a request for the other is carried out. -/
theorem requests_are_independent_contention :
    ∃ s, twoInlets.run? [.hold 0 "p1" (.ofSeconds 9), .ask 0 "a" "p1" (retitle "p1" 1)] = some s ∧
      (s.waiting.map Prod.fst = [3] ∧
        (s.answer 0 "b" "p1" (retitle "p1" 1)).1 =
          .error (.busy "write lock for p1 not acquired within 1s") ∧
        (s.answer 0 "b" "p2" (retitle "p2" 4)).1.toOption.map (·.revision.version) =
          some (some 5)) ∧
      s.Independent := by
  have hruns : (twoInlets.run? [.hold 0 "p1" (.ofSeconds 9), .ask 0 "a" "p1" (retitle "p1" 1)]).map
      (fun s => (s.waiting.map Prod.fst, (s.answer 0 "b" "p1" (retitle "p1" 1)).1,
        (s.answer 0 "b" "p2" (retitle "p2" 4)).1.toOption.map (·.revision.version))) =
      some ([3], .error (.busy "write lock for p1 not acquired within 1s"), some (some 5)) := by
    decide +kernel
  obtain ⟨s, hs, htold⟩ := Option.map_eq_some_iff.mp hruns
  obtain ⟨hwaiting, htold⟩ := Prod.mk.inj htold
  exact ⟨s, hs, ⟨hwaiting, Prod.mk.inj htold⟩, requests_are_independent (Sound.start.run hs)⟩

end InletRegistry.Registry.Service
