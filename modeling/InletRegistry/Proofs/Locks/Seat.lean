import InletRegistry.Proofs.Locks.Sound

/-!
# Everybody keeps his seat

The claim behind a seat stands where the seat says, and no claim stands behind two of them. So two who
have their locks for their own at the same time have the locks of different resources. This is kept by
whatever spares the seats, and by every move: somebody comes, makes his claim, gets the lock for his
own, or quits.
-/

namespace InletRegistry.Locks

variable {t u : LockTable} {e : Event} {seat old new : Option Seat} {s : Seat}
  {seats : List (Option Seat)} {n m k : Nat}

/-- The claim behind a seat stands where the seat says. -/
def Seat.Taken (t : LockTable) (s : Seat) : Prop :=
  ∃ c, t.claim? s.ticket = some c ∧ c.id = s.id ∧ c.stage.isLeaving = false ∧
    (s.isOwner = true → c.stage = .held)

namespace Seat.Taken

theorem ticket_lt (h : s.Taken t) (hs : t.Sound) : s.ticket < t.fresh := by
  obtain ⟨c, hc, -⟩ := h
  obtain ⟨hmem, hticket⟩ := LockTable.mem_of_claim? hc
  exact hticket ▸ hs.given c hmem

/-- An event by which the claim does not quit leaves the seat taken. -/
theorem next (h : s.Taken t) (hs : t.Sound) (he : t.next? e = some u)
    (hquit : e.quitter? ≠ some s.ticket) : s.Taken u := by
  obtain ⟨c, hc, hid, hstays, hheld⟩ := h
  obtain ⟨stage, hc', hstays', hheld'⟩ := LockTable.claim?_next_of_stays hs he hquit hc hstays
  exact ⟨_, hc', hid, hstays', fun howner => hheld' (hheld howner)⟩

end Seat.Taken

/-- What can become of a place among the seats, with the locks. -/
inductive Moves (t : LockTable) : Option Seat → Option Seat → LockTable → Prop where
  /-- Nothing becomes of it. -/
  | stays {seat : Option Seat} : Moves t seat seat t
  /-- A claim is made. -/
  | claims (id : String) (patience : Time.Duration) :
    Moves t none (some ⟨(t.arrive id patience).1, id, false⟩) (t.arrive id patience).2
  /-- The lock becomes his own. -/
  | enters {k : Nat} {id : String} (h : t.holds k = true) :
    Moves t (some ⟨k, id, false⟩) (some ⟨k, id, true⟩) t
  /-- The claim quits. -/
  | quits {s : Seat} {e : Event} {u : LockTable} (h : t.next? e = some u)
    (hquit : e.quitter? = some s.ticket) : Moves t (some s) none u

namespace Moves

/-- The locks take one event at most, by which nobody else quits. -/
theorem locks_cases (h : Moves t old new u) :
    u = t ∨ ∃ e, t.next? e = some u ∧ ∀ k, e.quitter? = some k → old.map Seat.ticket = some k := by
  cases h with
  | stays | enters => exact Or.inl rfl
  | claims => exact Or.inr ⟨.arrive _ _, rfl, nofun⟩
  | quits h hquit => exact Or.inr ⟨_, h, fun k hk => hquit.symm.trans hk⟩

theorem sound (h : Moves t old new u) (hs : t.Sound) : u.Sound := by
  rcases h.locks_cases with rfl | ⟨e, he, -⟩
  · exact hs
  · exact hs.next he

/-- A claim that is behind the place afterwards was there before, or is new. -/
theorem ticket_cases (h : Moves t old new u) (hnew : new = some s) :
    (∃ s', old = some s' ∧ s'.ticket = s.ticket) ∨ t.fresh ≤ s.ticket := by
  cases h with
  | stays => exact Or.inl ⟨s, hnew, rfl⟩
  | claims id patience =>
    obtain rfl := Option.some.inj hnew
    exact Or.inr (LockTable.fresh_le_arrive t id patience)
  | enters =>
    obtain rfl := Option.some.inj hnew
    exact Or.inl ⟨_, rfl, rfl⟩
  | quits => cases hnew

theorem taken (h : Moves t old new u) (hs : t.Sound) (hold : ∀ s, old = some s → s.Taken t)
    (hnew : new = some s) : s.Taken u := by
  cases h with
  | stays => exact hold s hnew
  | claims =>
    obtain rfl := Option.some.inj hnew
    exact ⟨_, LockTable.claim?_arrive hs, rfl, rfl, nofun⟩
  | enters hholds =>
    obtain rfl := Option.some.inj hnew
    obtain ⟨c, hc, hid, hstays, -⟩ := hold _ rfl
    refine ⟨c, hc, hid, hstays, fun _ => ?_⟩
    simp only [LockTable.holds, hc, decide_eq_true_eq] at hholds
    exact hholds
  | quits => cases hnew

end Moves

/-- Everybody who has a seat has it for himself. -/
structure Seating (seats : List (Option Seat)) (t : LockTable) : Prop where
  sound : t.Sound
  taken : ∀ (n : Nat) (s : Seat), seats[n]? = some (some s) → s.Taken t
  /-- No two stand behind one claim. -/
  apart : ∀ (n m : Nat) (s s' : Seat), seats[n]? = some (some s) → seats[m]? = some (some s') →
    s.ticket = s'.ticket → n = m

/-- An event that spares the seats makes nobody quit who has one. -/
theorem ne_of_spares (h : spares seats e = true) (hn : seats[n]? = some (some s)) :
    e.quitter? ≠ some s.ticket := by
  intro hquit
  have hall := List.all_eq_true.mp h _ (List.mem_of_getElem? hn)
  rw [hquit] at hall
  exact of_decide_eq_true hall rfl

/-- An event by which nobody quits spares all seats. -/
theorem spares_of_quiet (h : e.quitter? = none) : spares seats e = true := by
  rw [spares, h]
  exact List.all_eq_true.mpr fun _ _ => rfl

/-- So does one by which somebody quits who has no seat. -/
theorem spares_of_ne (hquit : e.quitter? = some k)
    (h : ∀ s, some s ∈ seats → s.ticket ≠ k) : spares seats e = true := by
  refine List.all_eq_true.mpr fun seat hseat => ?_
  rw [hquit]
  cases seat with
  | none => rfl
  | some s => exact decide_eq_true fun heq => h s hseat (Option.some.inj heq)

namespace Seating

theorem empty : Seating [] .empty := ⟨LockTable.Sound.empty, nofun, nofun⟩

theorem ticket_lt (h : Seating seats t) (hn : seats[n]? = some (some s)) : s.ticket < t.fresh :=
  (h.taken n s hn).ticket_lt h.sound

/-- Whose lock is his own holds it. -/
theorem held (h : Seating seats t) (hn : seats[n]? = some (some s)) (howner : s.isOwner = true) :
    ∃ c, t.claim? s.ticket = some c ∧ c.id = s.id ∧ c.stage = .held := by
  obtain ⟨c, hc, hid, -, hheld⟩ := h.taken n s hn
  exact ⟨c, hc, hid, hheld howner⟩

/-- Nobody else has the lock of a resource for his own. -/
theorem owner_unique (h : Seating seats t) {s' : Seat} (hn : seats[n]? = some (some s))
    (hm : seats[m]? = some (some s')) (howner : s.isOwner = true) (howner' : s'.isOwner = true)
    (hid : s.id = s'.id) : n = m := by
  obtain ⟨c, hc, hcid, hcheld⟩ := h.held hn howner
  obtain ⟨d, hd, hdid, hdheld⟩ := h.held hm howner'
  obtain ⟨hcmem, hck⟩ := LockTable.mem_of_claim? hc
  obtain ⟨hdmem, hdk⟩ := LockTable.mem_of_claim? hd
  have hsame : c = d := h.sound.owner_unique hcmem hdmem (by rw [hcid, hdid, hid])
    (by rw [hcheld]; rfl) (by rw [hdheld]; rfl)
  exact h.apart n m s s' hn hm (by rw [← hck, hsame, hdk])

/-- What spares the seats keeps them. -/
theorem next (h : Seating seats t) (hspares : spares seats e = true) (he : t.next? e = some u) :
    Seating seats u :=
  ⟨h.sound.next he, fun n s hn => (h.taken n s hn).next h.sound he (ne_of_spares hspares hn),
    h.apart⟩

/-- Somebody comes who has no seat yet. -/
theorem concat_none (h : Seating seats t) : Seating (seats ++ [none]) t := by
  have hold : ∀ {n : Nat} {s : Seat}, (seats ++ [none])[n]? = some (some s) →
      seats[n]? = some (some s) := by
    intro n s hn
    rw [List.getElem?_append] at hn
    split at hn
    · exact hn
    · have hmem := List.mem_of_getElem? hn
      rw [List.mem_singleton] at hmem
      cases hmem
  exact ⟨h.sound, fun n s hn => h.taken n s (hold hn),
    fun n m s s' hn hm => h.apart n m s s' (hold hn) (hold hm)⟩

/-- A move keeps the seats. -/
theorem set (h : Seating seats t) (hn : seats[n]? = some old) (hmove : Moves t old new u) :
    Seating (seats.set n new) u := by
  have hcases : ∀ {m : Nat} {s : Seat}, (seats.set n new)[m]? = some (some s) →
      (m = n ∧ new = some s) ∨ (m ≠ n ∧ seats[m]? = some (some s)) := by
    intro m s hm
    rw [List.getElem?_set] at hm
    split at hm
    next heq =>
      split at hm
      · exact Or.inl ⟨heq.symm, Option.some.inj hm⟩
      · cases hm
    next hne => exact Or.inr ⟨fun heq => hne heq.symm, hm⟩
  -- The claim behind the seat that has moved is behind no other seat.
  have hother : ∀ {m : Nat} {s s' : Seat}, new = some s → m ≠ n → seats[m]? = some (some s') →
      s.ticket ≠ s'.ticket := by
    intro m s s' hnew hne hm heq
    rcases hmove.ticket_cases hnew with ⟨s₀, rfl, hticket⟩ | hfresh
    · exact hne (h.apart m n s' s₀ hm hn (by rw [hticket, heq]))
    · have hlt := h.ticket_lt hm
      omega
  refine ⟨hmove.sound h.sound, ?_, ?_⟩
  · intro m s hm
    rcases hcases hm with ⟨rfl, hnew⟩ | ⟨hne, hm⟩
    · exact hmove.taken h.sound (fun s hs => h.taken m s (hs ▸ hn)) hnew
    · rcases hmove.locks_cases with rfl | ⟨e, he, hquits⟩
      · exact h.taken m s hm
      · refine (h.taken m s hm).next h.sound he fun hquit => ?_
        obtain ⟨s₀, rfl, hticket⟩ := Option.map_eq_some_iff.mp (hquits _ hquit)
        exact hne (h.apart m n s s₀ hm hn hticket.symm)
  · intro m₁ m₂ s s' hm₁ hm₂ heq
    rcases hcases hm₁ with ⟨rfl, hnew₁⟩ | ⟨hne₁, hold₁⟩
    · rcases hcases hm₂ with ⟨rfl, -⟩ | ⟨hne₂, hold₂⟩
      · rfl
      · exact absurd heq (hother hnew₁ hne₂ hold₂)
    · rcases hcases hm₂ with ⟨rfl, hnew₂⟩ | ⟨-, hold₂⟩
      · exact absurd heq.symm (hother hnew₂ hne₁ hold₁)
      · exact h.apart m₁ m₂ s s' hold₁ hold₂ heq

/-- Somebody comes and makes his first move. -/
theorem concat (h : Seating seats t) (hmove : Moves t none seat u) :
    Seating (seats ++ [seat]) u := by
  have hset := h.concat_none.set (n := seats.length) List.getElem?_concat_length hmove
  rwa [List.set_append_right _ _ (Nat.le_refl _), Nat.sub_self, List.set_cons_zero] at hset

end Seating

end InletRegistry.Locks
