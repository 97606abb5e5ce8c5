import InletRegistry.Proofs.Registry.Answers
import InletRegistry.Registry.Events

/-!
# One inlet and all others

`besides` is a service without an inlet: without what is stored for it, what the trail says of it, its
lock, and the orders for it that wait. What happens at the service and is not about the inlet happens to
the service without it in the same way, with the same reply; what is about the inlet cannot be seen there,
but for the numbers drawn. So whatever course things take, the requests for other inlets are answered as
if the inlet were not there, and its lock had never been held or awaited.
-/

namespace InletRegistry

/-- The inlet of which an event of the trail tells. -/
def Audit.Event.resourceId : Audit.Event → String
  | resourceUpdated _ id _ => id
  | resourceDeleted _ id _ => id
  | authorizationDenied id _ => id

namespace Registry

open InletRegistry.Access InletRegistry.Locks InletRegistry.Lookup InletRegistry.Text InletRegistry.Time

/-! ## Ledgers -/

/-- The ledger without what it says of an inlet. -/
def Ledger.besides (i : String) (l : Ledger) : Ledger :=
  { l with
    store := l.store.erase i
    trail := l.trail.filter (·.event.resourceId ≠ i) }

/-- That the trail is told of one inlet alone. -/
def Upshot.About (u : Upshot) (id : String) : Prop := ∀ e ∈ u.entries, e.event.resourceId = id

namespace Upshot

variable {u : Upshot} {i id : String} {l : Ledger}

theorem about_failed {caller : String} {f : Failure} {b : Bool} : (failed caller id f b).About id := by
  intro e he
  cases f with
  | authorizationDenied reason =>
    rw [List.mem_singleton.mp he]
    rfl
  | _ => cases he

/-- An upshot at another inlet takes place in the same way. -/
theorem on_besides (h : u.About id) (hne : id ≠ i) :
    u.on id (l.besides i) = (u.on id l).besides i := by
  have hstore : (l.store.erase i).amend id u.amendment = (l.store.amend id u.amendment).erase i :=
    Store.amend_comm (a := .erase) hne.symm nofun
  have hentries : u.entries.filter (·.event.resourceId ≠ i) = u.entries :=
    List.filter_eq_self.mpr fun e he => decide_eq_true ((h e he).trans_ne hne)
  simp only [on, Ledger.besides, hstore, List.filter_append, hentries]

/-- An upshot at the inlet itself cannot be seen. -/
theorem on_besides_self (h : u.About i) :
    (u.on i l).besides i = { l.besides i with fresh := l.fresh + u.drawn } := by
  have hentries : u.entries.filter (·.event.resourceId ≠ i) = [] :=
    List.filter_eq_nil_iff.mpr fun e he => by simp [h e he]
  simp only [on, Ledger.besides, Store.erase_amend, List.filter_append, hentries, List.append_nil]

end Upshot

theorem Order.about_upshot {kind : String} {policy : Policy} {o : Order} {s : Store} :
    (o.upshot kind policy s).About o.id := by
  unfold upshot
  split
  · exact Upshot.about_failed
  · intro e he
    rw [List.mem_singleton.mp he]
    unfold event
    split <;> rfl

theorem about_viewed {policy : Policy} {caller id : String} {s : Store} :
    (viewed policy caller id s).About id := by
  unfold viewed
  split
  · exact Upshot.about_failed
  · exact nofun

namespace Service

variable {s u : Service} {e : Event} {events : List Event} {r : Reply} {i id : String} {o : Order}
  {k n m now : Nat} {c : Claim}

/-- The service without an inlet. -/
def besides (i : String) (s : Service) : Service :=
  { s with
    ledger := s.ledger.besides i
    locks := s.locks.besides i
    waiting := s.waiting.filter (·.2.id ≠ i) }

/-! ## Sound services stay sound -/

/-- No order waits under the ticket of a claim that does not wait. -/
theorem Sound.waiting_ne (h : s.Sound) (hc : s.locks.claim? k = some c)
    (hstage : c.stage.isSuspended = false) : ∀ w ∈ s.waiting, w.1 ≠ k := by
  intro w hw hwk
  obtain ⟨d, hd, hdw, -, hsuspended⟩ := h.seated w hw
  obtain ⟨hcmem, hck⟩ := LockTable.mem_of_claim? hc
  obtain rfl := h.locks.eq_of_ticket hd hcmem ((hdw.trans hwk).trans hck.symm)
  exact Bool.false_ne_true (hstage.symm.trans hsuspended)

theorem waiting_ne_of_lookup (hnone : s.waiting.lookup k = none) : ∀ w ∈ s.waiting, w.1 ≠ k := by
  intro w hw hwk
  have hne := List.lookup_eq_none_iff.mp hnone w hw
  simp [hwk] at hne

theorem mem_waiting_filter {w : Nat × Order} (hw : w ∈ s.waiting.filter (·.1 ≠ k)) :
    w ∈ s.waiting ∧ w.1 ≠ k :=
  ⟨(List.mem_filter.mp hw).1, of_decide_eq_true (List.mem_filter.mp hw).2⟩

/-- An order to which its lock has been handed is carried out, and lets go of the lock. -/
theorem resume_of_some (hc : s.locks.claim? k = some c) (hhanded : c.stage = .handed)
    (ho : s.waiting.lookup k = some o) :
    s.resume k = (some (s.carry o).1, { (s.carry o).2 with
      locks := (s.locks.resume k).release k
      waiting := s.waiting.filter (·.1 ≠ k) }) := by
  have hheld := (LockTable.resume_of_handed hc hhanded).2
  have hholds : (s.locks.resume k).holds k = true := by simp [LockTable.holds, hheld]
  simp only [resume, ho, hholds, ↓reduceIte, finish]
  rfl

theorem Sound.submit (h : s.Sound) (now : Nat) (ho : o.Sensible) : (s.submit now o).2.Sound := by
  cases hopen : s.locks.isOpen o.id with
  | true =>
    rw [submit_of_open h hopen]
    have hnew : s.locks.fresh ≤ (s.locks.acquire now o.id s.patience).1 :=
      LockTable.fresh_le_arrive s.locks o.id s.patience
    exact h.of_keeps (h.locks.visit now o.id s.patience) (LockTable.keeps_visit h.locks)
      fun w hw => ⟨hw, Nat.ne_of_lt (Nat.lt_of_lt_of_le (h.given hw) hnew)⟩
  | false =>
    have hsound := (LockTable.acquire_leads h.locks now o.id s.patience).sound h.locks
    have hc := LockTable.claim?_acquire_eq h.locks now o.id s.patience
    obtain ⟨hcmem, hck⟩ := LockTable.mem_of_claim? hc
    rw [submit_of_shut h hopen]
    refine ⟨hsound, fun w hw => ?_, fun w hw => ?_⟩
    · rcases List.mem_append.mp hw with hold | hlast
      · obtain ⟨c, hc, hcw, hid, hsuspended⟩ := h.seated w hold
        refine ⟨c, ?_, hcw, hid, hsuspended⟩
        rw [LockTable.acquire_claims h.locks]
        exact List.mem_append_left _ hc
      · obtain rfl := List.mem_singleton.mp hlast
        exact ⟨_, hcmem, rfl, rfl, by simp [hopen, Stage.isSuspended]⟩
    · rcases List.mem_append.mp hw with hold | hlast
      · exact h.sensible w hold
      · rw [List.mem_singleton.mp hlast]
        exact ho

theorem Sound.resume (h : s.Sound) (hc : s.locks.claim? k = some c) (hhanded : c.stage = .handed) :
    (s.resume k).2.Sound := by
  have hsound : (s.locks.resume k).Sound := (LockTable.resume_drifts s.locks k).sound h.locks
  cases ho : s.waiting.lookup k with
  | some o =>
    have hheld := (LockTable.resume_of_handed hc hhanded).2
    rw [resume_of_some hc hhanded ho]
    exact h.of_keeps ((LockTable.release_leads hsound k).sound hsound)
      (LockTable.keeps_resume.trans (LockTable.keeps_release hsound hheld rfl))
      fun w hw => mem_waiting_filter hw
  | none =>
    rw [resume_of_none ho]
    exact h.of_keeps hsound LockTable.keeps_resume fun w hw => ⟨hw, waiting_ne_of_lookup ho w hw⟩

theorem Sound.expire (h : s.Sound) (hc : s.locks.claim? k = some c) (hwaits : c.stage.waits = true) :
    (s.expire k).2.Sound := by
  have hsound := (LockTable.expire_leads s.locks k).sound h.locks
  have hkeeps : s.locks.Keeps k (s.locks.expire k) := LockTable.keeps_expire hc hwaits
  unfold Service.expire
  cases ho : s.waiting.lookup k with
  | some o => exact h.of_keeps hsound hkeeps fun w hw => mem_waiting_filter hw
  | none => exact h.of_keeps hsound hkeeps fun w hw => ⟨hw, waiting_ne_of_lookup ho w hw⟩

theorem Sound.start? {task : Task} (h : s.Sound) (now : Nat) {kind caller : String} {op : Operation}
    (htask : op.toTask kind caller id = .ok task) : (s.start? now task).2.Sound := by
  rcases Operation.of_toTask htask with ⟨-, rfl⟩ | ⟨o, rfl, -, ho, -⟩
  · exact ⟨h.locks, h.seated, h.sensible⟩
  · exact h.submit now ho

theorem Sound.next (h : s.Sound) (hn : s.next? e = some (r, u)) : u.Sound := by
  cases e with
  | ask now caller id op =>
    simp only [next?] at hn
    cases htask : op.toTask s.kind caller id with
    | error f =>
      rw [htask] at hn
      cases hn
      exact h
    | ok task =>
      rw [htask] at hn
      cases hn
      exact h.start? now htask
  | resume k =>
    obtain ⟨c, hc, hu⟩ := Option.map_eq_some_iff.mp hn
    obtain ⟨hc, hplace⟩ := LockTable.claimAt?_eq_some.mp hc
    cases hu
    exact h.resume hc (of_decide_eq_true hplace)
  | expire k =>
    obtain ⟨c, hc, hu⟩ := Option.map_eq_some_iff.mp hn
    obtain ⟨hc, hplace⟩ := LockTable.claimAt?_eq_some.mp hc
    cases hu
    exact h.expire hc hplace
  | cancel k =>
    obtain ⟨c, hc, hu⟩ := Option.map_eq_some_iff.mp hn
    obtain ⟨hc, hplace⟩ := LockTable.claimAt?_eq_some.mp hc
    cases hu
    exact h.of_keeps ((LockTable.cancel_leads h.locks k).sound h.locks)
      (LockTable.keeps_cancel h.locks hc hplace) fun w hw => mem_waiting_filter hw
  | hold now id patience =>
    cases hn
    exact h.of_keeps (k := s.locks.fresh) ((LockTable.acquire_leads h.locks now id patience).sound h.locks)
      (LockTable.keeps_acquire h.locks now id patience)
      fun w hw => ⟨hw, Nat.ne_of_lt (h.given hw)⟩
  | release k =>
    obtain ⟨c, hc, hu⟩ := Option.map_eq_some_iff.mp hn
    obtain ⟨hc, hplace⟩ := LockTable.claimAt?_eq_some.mp hc
    cases hu
    have hheld : c.stage = .held := of_decide_eq_true hplace
    exact h.of_keeps ((LockTable.release_leads h.locks k).sound h.locks)
      (LockTable.keeps_release h.locks hc hheld)
      fun w hw => ⟨hw, h.waiting_ne hc (by rw [hheld]; rfl) w hw⟩
  | pass n m =>
    cases hn
    exact ⟨h.locks.passed m, h.seated, h.sensible⟩

/-! ## What is not about the inlet -/

theorem carry_besides (ho : o.Sensible) (hne : o.id ≠ i) :
    (s.besides i).carry o = ((s.carry o).1, (s.carry o).2.besides i) := by
  have hupshot : o.upshot s.kind s.policy (s.ledger.besides i).store =
      o.upshot s.kind s.policy s.ledger.store :=
    Order.upshot_congr ho (Store.find?_erase_ne hne)
  simp only [carry, Order.carryOut_eq, Service.besides, hupshot,
    Upshot.on_besides Order.about_upshot hne]
  rfl

theorem get_besides (hne : id ≠ i) (caller : String) :
    (s.besides i).get caller id = ((s.get caller id).1, (s.get caller id).2.besides i) := by
  have hviewed : viewed s.policy caller id (s.ledger.besides i).store =
      viewed s.policy caller id s.ledger.store := viewed_congr (Store.find?_erase_ne hne)
  simp only [get, Ledger.get_eq, Service.besides, hviewed, Upshot.on_besides about_viewed hne]
  rfl

/-- The order that waits under the ticket of a claim on another lock. -/
theorem lookup_besides (h : s.Sound) (hc : s.locks.claim? k = some c) (hne : c.id ≠ i) :
    (s.besides i).waiting.lookup k = s.waiting.lookup k := by
  refine lookup_filter_of fun w hw hwk => decide_eq_true ?_
  obtain ⟨d, hd, hdw, hid, -⟩ := h.seated w hw
  obtain ⟨hcmem, hck⟩ := LockTable.mem_of_claim? hc
  obtain rfl := h.locks.eq_of_ticket hd hcmem ((hdw.trans hwk).trans hck.symm)
  exact fun heq => hne (hid.trans heq)

/-- An order that waits is about the inlet on whose lock its claim is. -/
theorem Sound.id_of_lookup (h : s.Sound) (hc : s.locks.claim? k = some c)
    (ho : s.waiting.lookup k = some o) : o.id = c.id ∧ o.Sensible := by
  have hw := mem_of_lookup ho
  obtain ⟨d, hd, hdw, hid, -⟩ := h.seated _ hw
  obtain ⟨hcmem, hck⟩ := LockTable.mem_of_claim? hc
  obtain rfl := h.locks.eq_of_ticket hd hcmem (hdw.trans hck.symm)
  exact ⟨hid.symm, h.sensible _ hw⟩

theorem filter_comm {w : List (Nat × Order)} :
    (w.filter (·.2.id ≠ i)).filter (·.1 ≠ k) = (w.filter (·.1 ≠ k)).filter (·.2.id ≠ i) := by
  simp only [List.filter_filter, Bool.and_comm]

section Other

variable (h : s.Sound)
include h

theorem Sound.besides (i : String) : (s.besides i).Sound := by
  refine ⟨h.locks.besides i, fun w hw => ?_, fun w hw => h.sensible w (List.mem_filter.mp hw).1⟩
  obtain ⟨hold, hne⟩ := List.mem_filter.mp hw
  obtain ⟨c, hc, hcw, hid, hsuspended⟩ := h.seated w hold
  refine ⟨c, LockTable.mem_besides.mpr ⟨hc, ?_⟩, hcw, hid, hsuspended⟩
  exact hid.trans_ne (of_decide_eq_true hne)

theorem submit_besides (now : Nat) (ho : o.Sensible) (hne : o.id ≠ i) :
    (s.besides i).submit now o = ((s.submit now o).1, (s.submit now o).2.besides i) := by
  have hsame : (s.besides i).locks.isOpen o.id = s.locks.isOpen o.id :=
    LockTable.isOpen_besides h.locks hne
  cases hopen : s.locks.isOpen o.id with
  | true =>
    have hvisit : (s.locks.besides i).visit now o.id s.patience =
        (s.locks.visit now o.id s.patience).besides i := LockTable.besides_visit h.locks hne
    rw [submit_of_open h hopen, submit_of_open (h.besides i) (hsame.trans hopen), carry_besides ho hne]
    simp only [Service.besides, hvisit]
  | false =>
    have hacquire : (s.locks.besides i).acquire now o.id s.patience =
        ((s.locks.acquire now o.id s.patience).1,
          (s.locks.acquire now o.id s.patience).2.besides i) :=
      LockTable.besides_acquire h.locks now hne s.patience
    rw [submit_of_shut h hopen, submit_of_shut (h.besides i) (hsame.trans hopen)]
    simp [Service.besides, hacquire, List.filter_append, hne]

theorem start?_besides (now : Nat) {kind caller : String} {op : Operation} {task : Task}
    (htask : op.toTask kind caller id = .ok task) (hne : id ≠ i) :
    (s.besides i).start? now task = ((s.start? now task).1, (s.start? now task).2.besides i) := by
  rcases Operation.of_toTask htask with ⟨-, rfl⟩ | ⟨o, rfl, rfl, ho, -⟩
  · simp only [start?, get_besides hne]
  · exact submit_besides h now ho hne

theorem resume_besides (hc : s.locks.claim? k = some c) (hhanded : c.stage = .handed)
    (hne : c.id ≠ i) : (s.besides i).resume k = ((s.resume k).1, (s.resume k).2.besides i) := by
  have hc' := LockTable.claim?_besides h.locks hc hne
  have hlookup := lookup_besides h hc hne
  have hresume := LockTable.besides_resume h.locks hc hne
  have hheld := (LockTable.resume_of_handed hc hhanded).2
  have hsound : (s.locks.resume k).Sound := (LockTable.resume_drifts s.locks k).sound h.locks
  have hrelease := LockTable.besides_release hsound hheld rfl hne
  rw [hresume] at hrelease
  cases ho : s.waiting.lookup k with
  | some o =>
    obtain ⟨hid, hsensible⟩ := h.id_of_lookup hc ho
    rw [resume_of_some hc hhanded ho, resume_of_some hc' hhanded (hlookup.trans ho),
      carry_besides hsensible (hid.trans_ne hne)]
    simp only [Service.besides, hrelease, filter_comm]
  | none =>
    rw [resume_of_none ho, resume_of_none (hlookup.trans ho)]
    simp only [Service.besides, hresume]

theorem expire_besides (hc : s.locks.claim? k = some c) (hwaits : c.stage.waits = true)
    (hne : c.id ≠ i) : (s.besides i).expire k = ((s.expire k).1, (s.expire k).2.besides i) := by
  have hlookup := lookup_besides h hc hne
  have hexpire := LockTable.besides_expire h.locks hc hwaits hne
  unfold Service.expire
  rw [hlookup]
  cases s.waiting.lookup k with
  | some o => simp only [Service.besides, hexpire, filter_comm]
  | none => simp only [Service.besides, hexpire]

theorem cancel_besides (hc : s.locks.claim? k = some c) (hsuspended : c.stage.isSuspended = true)
    (hne : c.id ≠ i) : (s.besides i).cancel k = (s.cancel k).besides i := by
  simp only [Service.cancel, Service.besides, filter_comm,
    LockTable.besides_cancel h.locks hc hsuspended hne]

/-- Whether a claim stands in a certain place does not hang on the claims on another resource. -/
theorem claimAt?_besides {place : Stage → Bool} (hk : (s.locks.claim? k).any (·.id = i) = false) :
    (s.besides i).locks.claimAt? k place = s.locks.claimAt? k place := by
  unfold LockTable.claimAt?
  rw [show (s.besides i).locks = s.locks.besides i from rfl, LockTable.claim?_besides_of_any h.locks hk]

/-- **What is not about an inlet happens to the service without it in the same way.** -/
theorem next?_besides (he : s.concerns i e = false) :
    (s.besides i).next? e = (s.next? e).map fun (r, u) => (r, u.besides i) := by
  cases e with
  | ask now caller id op =>
    have hne : id ≠ i := of_decide_eq_false he
    simp only [next?]
    rw [show (s.besides i).kind = s.kind from rfl]
    cases htask : op.toTask s.kind caller id with
    | error f => rfl
    | ok task => simp only [start?_besides h now htask hne, Option.map_some]
  | resume k =>
    simp only [next?, claimAt?_besides h he]
    cases hplace : s.locks.claimAt? k (· = .handed) with
    | none => rfl
    | some c =>
      obtain ⟨hc, hhanded⟩ := LockTable.claimAt?_eq_some.mp hplace
      have hne : c.id ≠ i := of_decide_eq_false (by simpa [concerns, hc] using he)
      simp only [Option.map_some, resume_besides h hc (of_decide_eq_true hhanded) hne]
  | expire k =>
    simp only [next?, claimAt?_besides h he]
    cases hplace : s.locks.claimAt? k Stage.waits with
    | none => rfl
    | some c =>
      obtain ⟨hc, hwaits⟩ := LockTable.claimAt?_eq_some.mp hplace
      have hne : c.id ≠ i := of_decide_eq_false (by simpa [concerns, hc] using he)
      simp only [Option.map_some, expire_besides h hc hwaits hne]
  | cancel k =>
    simp only [next?, claimAt?_besides h he]
    cases hplace : s.locks.claimAt? k Stage.isSuspended with
    | none => rfl
    | some c =>
      obtain ⟨hc, hsuspended⟩ := LockTable.claimAt?_eq_some.mp hplace
      have hne : c.id ≠ i := of_decide_eq_false (by simpa [concerns, hc] using he)
      simp only [Option.map_some, cancel_besides h hc hsuspended hne]
  | hold now id patience =>
    have hne : id ≠ i := of_decide_eq_false he
    simp only [next?, Option.map_some, Service.besides, LockTable.besides_acquire h.locks now hne]
  | release k =>
    simp only [next?, claimAt?_besides h he]
    cases hplace : s.locks.claimAt? k (· = .held) with
    | none => rfl
    | some c =>
      obtain ⟨hc, hheld⟩ := LockTable.claimAt?_eq_some.mp hplace
      have hne : c.id ≠ i := of_decide_eq_false (by simpa [concerns, hc] using he)
      simp only [Option.map_some, Service.besides,
        LockTable.besides_release h.locks hc (of_decide_eq_true hheld) hne]
  | pass n m => rfl

end Other

/-! ## What is about the inlet -/

/-- That without an inlet nothing sets a service apart from what it was before, but for the numbers drawn
since. -/
structure Unseen (i : String) (s u : Service) : Prop where
  kind : u.kind = s.kind
  policy : u.policy = s.policy
  patience : u.patience = s.patience
  ledger : u.ledger.besides i = { s.ledger.besides i with fresh := u.ledger.fresh }
  locks : u.locks.besides i = { s.locks.besides i with fresh := u.locks.fresh }
  waiting : u.waiting.filter (·.2.id ≠ i) = s.waiting.filter (·.2.id ≠ i)
  identifiers : s.ledger.fresh ≤ u.ledger.fresh
  tickets : s.locks.fresh ≤ u.locks.fresh

namespace Unseen

theorem refl (i : String) (s : Service) : Unseen i s s :=
  ⟨rfl, rfl, rfl, rfl, rfl, rfl, Nat.le_refl _, Nat.le_refl _⟩

theorem besides_eq (h : Unseen i s u) : u.besides i =
    (s.besides i).passOver (u.ledger.fresh - s.ledger.fresh) (u.locks.fresh - s.locks.fresh) := by
  have hidentifiers : (s.ledger.besides i).fresh + (u.ledger.fresh - s.ledger.fresh) = u.ledger.fresh :=
    Nat.add_sub_cancel' h.identifiers
  have htickets : (s.locks.besides i).fresh + (u.locks.fresh - s.locks.fresh) = u.locks.fresh :=
    Nat.add_sub_cancel' h.tickets
  simp only [Service.besides, passOver, h.kind, h.policy, h.patience, h.ledger, h.locks, h.waiting,
    hidentifiers, htickets]

/-- What is done to the ledger for an order on the inlet. -/
theorem carry (h : Unseen i s u) (hid : o.id = i) : Unseen i s (u.carry o).2 := by
  have hledger : (o.carryOut u.kind u.policy u.ledger).2.besides i =
      { u.ledger.besides i with fresh := (o.carryOut u.kind u.policy u.ledger).2.fresh } := by
    rw [Order.carryOut_eq, hid]
    exact Upshot.on_besides_self (hid ▸ Order.about_upshot)
  have hle : u.ledger.fresh ≤ (o.carryOut u.kind u.policy u.ledger).2.fresh := by
    rw [Order.carryOut_eq]
    exact Nat.le_add_right _ _
  refine ⟨h.kind, h.policy, h.patience, ?_, h.locks, h.waiting, Nat.le_trans h.identifiers hle,
    h.tickets⟩
  exact hledger.trans (by rw [h.ledger]; rfl)

theorem get (caller i : String) (s : Service) : Unseen i s (s.get caller i).2 := by
  refine ⟨rfl, rfl, rfl, ?_, rfl, rfl, ?_, Nat.le_refl _⟩
  · show (s.ledger.get s.policy caller i).2.besides i =
      { s.ledger.besides i with fresh := (s.ledger.get s.policy caller i).2.fresh }
    rw [Ledger.get_eq]
    exact Upshot.on_besides_self about_viewed
  · show s.ledger.fresh ≤ (s.ledger.get s.policy caller i).2.fresh
    rw [Ledger.get_eq]
    exact Nat.le_add_right _ _

/-- What is done to the locks by a claim on the inlet that is there already. -/
theorem withLocks (h : Unseen i s u) {locks : LockTable}
    (hlocks : locks.besides i = u.locks.besides i) : Unseen i s { u with locks } := by
  have hfresh : (locks.besides i).fresh = (u.locks.besides i).fresh := by rw [hlocks]
  refine ⟨h.kind, h.policy, h.patience, h.ledger, ?_, h.waiting, h.identifiers, ?_⟩
  · rw [hlocks, h.locks]
    exact congrArg (fun n => ({ s.locks.besides i with fresh := n } : LockTable)) hfresh.symm
  · exact Nat.le_trans h.tickets (Nat.le_of_eq hfresh.symm)

/-- What is done to the locks by a claim on the inlet that is new. -/
theorem withNew (h : Unseen i s u) {locks : LockTable}
    (hlocks : locks.besides i = { u.locks.besides i with fresh := locks.fresh })
    (hle : u.locks.fresh ≤ locks.fresh) : Unseen i s { u with locks } :=
  ⟨h.kind, h.policy, h.patience, h.ledger, hlocks.trans (by rw [h.locks]), h.waiting, h.identifiers,
    Nat.le_trans h.tickets hle⟩

theorem withWaiting (h : Unseen i s u) {waiting : List (Nat × Order)}
    (hwaiting : waiting.filter (·.2.id ≠ i) = u.waiting.filter (·.2.id ≠ i)) :
    Unseen i s { u with waiting } :=
  ⟨h.kind, h.policy, h.patience, h.ledger, h.locks, hwaiting.trans h.waiting, h.identifiers, h.tickets⟩

end Unseen

/-- An order that waits under the ticket of a claim on the inlet is not among the others. -/
theorem Sound.filter_waiting (h : s.Sound) (hc : s.locks.claim? k = some c) (hid : c.id = i) :
    (s.waiting.filter (·.1 ≠ k)).filter (·.2.id ≠ i) = s.waiting.filter (·.2.id ≠ i) := by
  rw [← filter_comm, List.filter_eq_self]
  intro w hw
  obtain ⟨hold, hne⟩ := List.mem_filter.mp hw
  refine decide_eq_true fun hwk => of_decide_eq_true hne ?_
  obtain ⟨d, hd, hdw, hdid, -⟩ := h.seated w hold
  obtain ⟨hcmem, hck⟩ := LockTable.mem_of_claim? hc
  obtain rfl := h.locks.eq_of_ticket hd hcmem ((hdw.trans hwk).trans hck.symm)
  exact hdid.symm.trans hid

section Own

variable (h : s.Sound)
include h

theorem submit_unseen (now : Nat) (hid : o.id = i) : Unseen i s (s.submit now o).2 := by
  cases hopen : s.locks.isOpen o.id with
  | true =>
    have hvisit : (s.locks.visit now o.id s.patience).besides i =
        { s.locks.besides i with fresh := (s.locks.visit now o.id s.patience).fresh } := by
      rw [hid]
      exact LockTable.besides_visit_self h.locks
    have hle : s.locks.fresh ≤ (s.locks.visit now o.id s.patience).fresh := by
      rw [LockTable.visit_fresh h.locks]
      exact Nat.le_add_right _ _
    rw [submit_of_open h hopen]
    exact ((Unseen.refl i s).carry hid).withNew hvisit hle
  | false =>
    have hacquire : (s.locks.acquire now o.id s.patience).2.besides i =
        { s.locks.besides i with fresh := (s.locks.acquire now o.id s.patience).2.fresh } := by
      rw [hid]
      exact LockTable.besides_acquire_self h.locks now i s.patience
    have hle := LockTable.fresh_le_acquire s.locks now o.id s.patience
    rw [submit_of_shut h hopen]
    exact ((Unseen.refl i s).withNew hacquire hle).withWaiting (by simp [List.filter_append, hid])

theorem resume_unseen (hc : s.locks.claim? k = some c) (hhanded : c.stage = .handed) (hid : c.id = i) :
    Unseen i s (s.resume k).2 := by
  have hresume := LockTable.besides_resume_self h.locks hc hid
  have hheld := (LockTable.resume_of_handed hc hhanded).2
  have hsound : (s.locks.resume k).Sound := (LockTable.resume_drifts s.locks k).sound h.locks
  have hrelease := LockTable.besides_release_self hsound hheld hid rfl
  cases ho : s.waiting.lookup k with
  | some o =>
    rw [resume_of_some hc hhanded ho]
    have hoid := (h.id_of_lookup hc ho).1.trans hid
    exact (((Unseen.refl i s).carry hoid).withLocks (hrelease.trans hresume)).withWaiting
      (h.filter_waiting hc hid)
  | none =>
    rw [resume_of_none ho]
    exact (Unseen.refl i s).withLocks hresume

theorem expire_unseen (hc : s.locks.claim? k = some c) (hwaits : c.stage.waits = true)
    (hid : c.id = i) : Unseen i s (s.expire k).2 := by
  have hlocks := (Unseen.refl i s).withLocks (LockTable.besides_expire_self h.locks hc hid hwaits)
  unfold Service.expire
  cases s.waiting.lookup k with
  | some o => exact hlocks.withWaiting (h.filter_waiting hc hid)
  | none => exact hlocks

/-- **What is about an inlet cannot be seen without it.** -/
theorem next?_unseen (he : s.concerns i e = true) (hn : s.next? e = some (r, u)) : Unseen i s u := by
  have hclaim : ∀ {k c} {place : Stage → Bool}, s.locks.claimAt? k place = some c →
      (s.locks.claim? k).any (·.id = i) = true →
        s.locks.claim? k = some c ∧ place c.stage = true ∧ c.id = i := by
    intro k c place hplace hk
    obtain ⟨hc, hstage⟩ := LockTable.claimAt?_eq_some.mp hplace
    rw [hc] at hk
    exact ⟨hc, hstage, of_decide_eq_true hk⟩
  cases e with
  | ask now caller id op =>
    obtain rfl : id = i := of_decide_eq_true he
    simp only [next?] at hn
    cases htask : op.toTask s.kind caller id with
    | error f =>
      rw [htask] at hn
      cases hn
      exact .refl _ _
    | ok task =>
      rw [htask] at hn
      cases hn
      rcases Operation.of_toTask htask with ⟨-, rfl⟩ | ⟨o, rfl, hid, -, -⟩
      · exact .get caller id s
      · exact submit_unseen h now hid
  | resume k =>
    obtain ⟨c, hplace, hu⟩ := Option.map_eq_some_iff.mp hn
    obtain ⟨hc, hhanded, hid⟩ := hclaim hplace he
    cases hu
    exact resume_unseen h hc (of_decide_eq_true hhanded) hid
  | expire k =>
    obtain ⟨c, hplace, hu⟩ := Option.map_eq_some_iff.mp hn
    obtain ⟨hc, hwaits, hid⟩ := hclaim hplace he
    cases hu
    exact expire_unseen h hc hwaits hid
  | cancel k =>
    obtain ⟨c, hplace, hu⟩ := Option.map_eq_some_iff.mp hn
    obtain ⟨hc, hsuspended, hid⟩ := hclaim hplace he
    cases hu
    exact ((Unseen.refl i s).withLocks (LockTable.besides_cancel_self h.locks hc hid hsuspended)).withWaiting
      (h.filter_waiting hc hid)
  | hold now id patience =>
    obtain rfl : id = i := of_decide_eq_true he
    cases hn
    exact (Unseen.refl id s).withNew (LockTable.besides_acquire_self h.locks now id patience)
      (LockTable.fresh_le_acquire s.locks now id patience)
  | release k =>
    obtain ⟨c, hplace, hu⟩ := Option.map_eq_some_iff.mp hn
    obtain ⟨hc, hheld, hid⟩ := hclaim hplace he
    cases hu
    exact (Unseen.refl i s).withLocks
      (LockTable.besides_release_self h.locks hc hid (of_decide_eq_true hheld))
  | pass n m => cases he

end Own

/-! ## Courses -/

theorem Sound.run (h : s.Sound) (hrun : s.run? events = some u) : u.Sound :=
  course?_invariant h (fun t e v ht he => by
    obtain ⟨⟨r, w⟩, hn, rfl⟩ := Option.map_eq_some_iff.mp he
    exact ht.next hn) hrun

/-- **Whatever course things take, what is about an inlet might as well not have happened.** -/
theorem run?_others (h : s.Sound) (hrun : s.run? events = some u) (i : String) :
    (s.besides i).run? (s.others i events) = some (u.besides i) := by
  induction events generalizing s with
  | nil =>
    cases hrun
    rfl
  | cons e events ih =>
    obtain ⟨v, hv, hrest⟩ := Option.bind_eq_some_iff.mp hrun
    obtain ⟨⟨r, w⟩, hn, rfl⟩ := Option.map_eq_some_iff.mp hv
    have hlater := ih (h.next hn) hrest
    simp only [others, hn]
    split
    next he =>
      have hseen := (next?_unseen h he hn).besides_eq
      show ((s.besides i).next? (.pass _ _)).map Prod.snd >>= _ = _
      simp only [next?, Option.map_some, Option.bind_eq_bind, Option.bind_some, ← hseen]
      exact hlater
    next he =>
      have hnext := next?_besides h (Bool.eq_false_iff.mpr he)
      rw [hn] at hnext
      show ((s.besides i).next? e).map Prod.snd >>= _ = _
      simp only [hnext, Option.map_some, Option.bind_eq_bind, Option.bind_some]
      exact hlater

end Service

end Registry

end InletRegistry
