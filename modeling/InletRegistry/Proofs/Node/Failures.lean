import InletRegistry.Proofs.Node.Retains

/-!
# Failures leave no trace

A request that is answered with an error might as well not have come. The events of the others alone
lead to the same store and the same claims, and give every other call the same answer; the trail is the
same too, but for the entry that says that the request was denied, if it was. So any number of failed
requests may be taken out of a course, one after another.

There is one thing that a failed request may have done. Where a client went away after its order had been
handed a lock, a mutex may have been left behind, and whoever comes for it and looks back takes it out,
also if he fails. So the others alone may have mutexes in the table that nobody wants, and count them if
they are asked how many locks there are (`Retains`). As long as nobody is dropped, there is nothing of the
kind, and the locks are the same.

A request that fails at once is compared with the numbers that it drew (`take_failed`). One whose order
waits is compared with a reception in which its claim is lifted, event by event (`Pending.run`), until
its order comes to an end (`Closes`); from there on the two differ in their trails alone, and in what was
left behind (`Lacks`).
-/

namespace InletRegistry.Reception

open InletRegistry.Http InletRegistry.Routing InletRegistry.Registry InletRegistry.Locks
open InletRegistry.LockTable

variable {t u v : Reception} {e : Event} {events : List Event} {now i a k : Nat} {r : Request}
  {call : Call} {c : Claim} {record past : List Audit.Entry} {n : Node} {f : Failure} {untidy : Prop}

/-! ## Failures in responses -/

/-- What the trail has to say of a call: one entry if it was denied, and else nothing. -/
def Tells (call : Call) (record : List Audit.Entry) : Prop :=
  if call.isDenied then ∃ caller id reason, record = [⟨caller, .authorizationDenied id reason⟩]
  else record = []

theorem isDenied_answered (response : Response) :
    (Call.answered response).isDenied = decide (response.status = 403) := rfl

theorem tells_of_failure {response : Response} (h : response.status = f.status) (caller id : String) :
    Tells (.answered response) (denial caller id f) := by
  unfold Tells
  rw [isDenied_answered, h]
  cases f with
  | authorizationDenied reason => exact ⟨caller, id, reason, rfl⟩
  | _ => rfl

theorem tells_nil {response : Response} (h : response.status ≠ 403) : Tells (.answered response) [] := by
  unfold Tells
  rw [isDenied_answered, if_neg (by simpa only [decide_eq_true_eq] using h)]

theorem Tells.length (h : Tells call record) : record.length = if call.isDenied then 1 else 0 := by
  unfold Tells at h
  by_cases hdenied : call.isDenied = true
  · rw [if_pos hdenied] at h ⊢
    obtain ⟨caller, id, reason, rfl⟩ := h
    rfl
  · rw [if_neg hdenied] at h ⊢
    rw [h]
    rfl

theorem Tells.denials (h : Tells call record) :
    ∀ entry ∈ record, ∃ caller id reason, entry = ⟨caller, .authorizationDenied id reason⟩ := by
  unfold Tells at h
  split at h
  · obtain ⟨caller, id, reason, rfl⟩ := h
    intro entry hentry
    exact ⟨caller, id, reason, List.mem_singleton.mp hentry⟩
  · rw [h]
    exact nofun

theorem respond_status_ok {v : Versioned Inlet} : (n.respond (.ok v)).status = 200 :=
  Node.sign_status n _

theorem respond_status_error : (n.respond (.error f)).status = f.status := Node.sign_status n _

/-! ## Receptions that differ in one record -/

/-- That a reception lacks a stretch of another's trail, and retains the rest of it. -/
def Lacks (untidy : Prop) (record : List Audit.Entry) (v t : Reception) : Prop :=
  ∃ past z y, t = since (past ++ record) z ∧ v = since past y ∧ Retains untidy y z

/-- The reception with more entries at the end of its trail. -/
def recordAll (record : List Audit.Entry) (t : Reception) : Reception :=
  t.onService fun s => { s with ledger := s.ledger.recordAll record }

theorem recordAll_nil (t : Reception) : t.recordAll [] = t := by
  simp only [recordAll, onService, Ledger.recordAll_nil]
  rfl

/-- The reception without its trail. -/
def forgetful (t : Reception) : Reception :=
  t.onService fun s => { s with ledger := { s.ledger with trail := [] } }

theorem recordAll_eq_since (record : List Audit.Entry) (t : Reception) :
    t.recordAll record = since (t.ledger.trail ++ record) t.forgetful := by
  have htrail : t.ledger.trail ++ record = t.ledger.trail ++ record ++ [] := (List.append_nil _).symm
  show t.onService (fun s => { s with ledger := { s.ledger with trail := t.ledger.trail ++ record } }) =
    t.onService fun s => { s with ledger := { s.ledger with trail := t.ledger.trail ++ record ++ [] } }
  rw [← htrail]

theorem lacks_recordAll (h : Retains untidy v t) (record : List Audit.Entry) :
    Lacks untidy record v (t.recordAll record) := by
  have hledger : v.service.ledger = t.service.ledger := h.service.ledger
  refine ⟨t.ledger.trail, t.forgetful, v.forgetful, recordAll_eq_since record t, ?_, ?_⟩
  · have hsame : v.ledger.trail = t.ledger.trail := congrArg Ledger.trail hledger
    have hpast := recordAll_eq_since [] v
    rwa [recordAll_nil, List.append_nil, hsame] at hpast
  · exact h.onService (f := fun s => { s with ledger := { s.ledger with trail := [] } })
      (g := fun s => { s with ledger := { s.ledger with trail := [] } })
      (h.service.onLedger ({ · with trail := [] }))

theorem run?_since (h : t.Proper) : (t.since past).run? events = (t.run? events).map (since past) := by
  induction events generalizing t with
  | nil => rfl
  | cons e events ih =>
    show ((t.since past).next? e).bind _ = ((t.next? e).bind _).map _
    rw [next?_since h.executes]
    cases he : t.next? e with
    | none => rfl
    | some u => exact ih (h.next he)

theorem Proper.of_since (h : (t.since past).Proper) : t.Proper :=
  ⟨h.executes, ⟨h.prompt.locks, h.prompt.given⟩, h.given⟩

/-- The same events keep the difference. -/
theorem Lacks.run (h : Lacks untidy record v t) (hv : v.Proper) (ht : t.Proper)
    (htidy : ¬ untidy → v.locks.Tidy) (hstay : ¬ untidy → ∀ e ∈ events, e.isCancel = false)
    (hrun : t.run? events = some u) :
    ∃ w, v.run? events = some w ∧ Lacks untidy record w u := by
  obtain ⟨past, z, y, rfl, rfl, hretains⟩ := h
  have hz := ht.of_since
  have hy := hv.of_since
  rw [run?_since hz] at hrun
  obtain ⟨u, hu, rfl⟩ := Option.map_eq_some_iff.mp hrun
  obtain ⟨w, hw, hend⟩ := hretains.run hy hz htidy hstay hu
  exact ⟨since past w, by rw [run?_since hy, hw]; rfl, past, u, w, rfl, rfl, hend⟩

theorem Lacks.calls (h : Lacks untidy record v t) :
    List.Forall₂ (Call.Alike untidy) v.calls t.calls := by
  obtain ⟨past, z, y, rfl, rfl, hretains⟩ := h
  exact hretains.calls

theorem Lacks.store (h : Lacks untidy record v t) : v.ledger.store = t.ledger.store := by
  obtain ⟨past, z, y, rfl, rfl, hretains⟩ := h
  have hstore : y.ledger.store = z.ledger.store := congrArg Ledger.store hretains.service.ledger
  exact hstore

theorem Lacks.locks (h : Lacks untidy record v t) : v.locks.Retains t.locks := by
  obtain ⟨past, z, y, rfl, rfl, hretains⟩ := h
  exact hretains.locks

theorem Lacks.sublist (h : Lacks untidy record v t) : v.ledger.trail.Sublist t.ledger.trail := by
  obtain ⟨past, z, y, rfl, rfl, hretains⟩ := h
  have htrail : y.ledger.trail = z.ledger.trail := congrArg Ledger.trail hretains.service.ledger
  show (past ++ y.ledger.trail).Sublist (past ++ record ++ z.ledger.trail)
  rw [htrail]
  exact (List.sublist_append_left past record).append_right z.ledger.trail

theorem Lacks.perm (h : Lacks untidy record v t) :
    t.ledger.trail.Perm (v.ledger.trail ++ record) := by
  obtain ⟨past, z, y, rfl, rfl, hretains⟩ := h
  have htrail : y.ledger.trail = z.ledger.trail := congrArg Ledger.trail hretains.service.ledger
  show (past ++ record ++ z.ledger.trail).Perm (past ++ y.ledger.trail ++ record)
  rw [htrail, List.append_assoc, List.append_assoc]
  exact List.perm_append_comm.append_left past

/-! ## Calls that wait -/

/-- That a call, and no other, waits under a ticket. -/
structure Pending (i a : Nat) (t : Reception) : Prop where
  call : ∃ visit, t.calls[i]? = some (.waiting a visit)
  alone : ∀ j call, t.calls[j]? = some call → call.ticket? = some a → j = i
  awaits : t.service.Awaits a

/-- A call that waits for nothing stays what it is. -/
theorem closed_next (h : t.Proper) (he : t.next? e = some u) (hcall : t.calls[i]? = some call)
    (hclosed : call.ticket? = none) : u.calls[i]? = some call := by
  rcases calls_next h he with ⟨new, -, hcalls⟩ | ⟨change, hcalls, hsame, -⟩ <;> rw [hcalls]
  · rw [List.getElem?_append_left (List.getElem?_eq_some_iff.mp hcall).1]
    exact hcall
  · rw [List.getElem?_map, hcall, Option.map_some, hsame call (Or.inl hclosed)]

theorem closed_run (h : t.Proper) (hrun : t.run? events = some u) (hcall : t.calls[i]? = some call)
    (hclosed : call.ticket? = none) : u.calls[i]? = some call := by
  have hboth := course?_invariant (P := fun u => u.Proper ∧ u.calls[i]? = some call) ⟨h, hcall⟩
    (fun t e u ht he => ⟨ht.1.next he, closed_next ht.1 he ht.2 hclosed⟩) hrun
  exact hboth.2

/-- A call that waits goes on waiting while something befalls others. -/
theorem Pending.next (hp : Pending i a t) (h : t.Proper) (he : t.next? e = some u)
    (hother : e.ticket? ≠ some a) : Pending i a u := by
  have hlt : a < t.locks.fresh := hp.awaits.lt h.prompt
  have hstays := (next_stays h hlt he hother).awaits hp.awaits
  obtain ⟨visit, hcall⟩ := hp.call
  have hi := (List.getElem?_eq_some_iff.mp hcall).1
  rcases calls_next h he with ⟨new, hnew, hcalls⟩ | ⟨change, hcalls, hsame, hback⟩
  · refine ⟨⟨visit, ?_⟩, ?_, hstays⟩
    · rw [hcalls, List.getElem?_append_left hi]
      exact hcall
    · intro j call hj hticket
      rw [hcalls] at hj
      by_cases hlast : j < t.calls.length
      · rw [List.getElem?_append_left hlast] at hj
        exact hp.alone j call hj hticket
      · rw [List.getElem?_append_right (Nat.le_of_not_lt hlast)] at hj
        obtain rfl := List.mem_singleton.mp (List.mem_of_getElem? hj)
        exact absurd (hnew a hticket) (Nat.ne_of_lt (Nat.lt_succ_of_lt hlt))
  · refine ⟨⟨visit, ?_⟩, ?_, hstays⟩
    · have hkept := hsame (.waiting a visit) (Or.inr fun heq => hother heq.symm)
      rw [hcalls, List.getElem?_map, hcall, Option.map_some, hkept]
    · intro j call hj hticket
      rw [hcalls, List.getElem?_map] at hj
      obtain ⟨old, hold, rfl⟩ := Option.map_eq_some_iff.mp hj
      exact hp.alone j old hold (hback old a hticket)

theorem Pending.ended (hp : Pending i a t) (ending : Visit → Call) :
    ∃ visit, (t.calls.map (.ended a ending))[i]? = some (ending visit) := by
  obtain ⟨visit, hcall⟩ := hp.call
  refine ⟨visit, ?_⟩
  rw [List.getElem?_map, hcall, Option.map_some]
  exact congrArg some (if_pos rfl)

/-- Whatever ends the call changes no other. -/
theorem Pending.eraseIdx_ended (hp : Pending i a t) (ending : Visit → Call) :
    (t.calls.map (.ended a ending)).eraseIdx i = t.calls.eraseIdx i := by
  rw [List.eraseIdx_map]
  refine (List.map_congr_left ?_).trans (List.map_id _)
  intro call hcall
  obtain ⟨j, hne, hj⟩ := List.mem_eraseIdx_iff_getElem?.mp hcall
  cases call with
  | waiting k visit => exact if_neg fun hk => hne (hp.alone j _ hj (congrArg some hk))
  | _ => rfl

/-- A claim that is lifted is spent. -/
theorem Pending.spent (hp : Pending i a t) (h : t.Proper) {s : Service}
    (hclaims : s.locks.claims = (t.locks.lift a).claims) (hfresh : s.locks.fresh = t.locks.fresh) :
    s.Spent a := by
  obtain ⟨-, c, hc, -⟩ := hp.awaits
  refine ⟨Nat.lt_of_lt_of_eq (hp.awaits.lt h.prompt) hfresh.symm, ?_⟩
  show s.locks.claims.find? _ = none
  rw [hclaims]
  exact claim?_lift_self hc

/-- That a call has come to its end: its claim is gone, and if it failed, the rest is as if it had not
been there, but for the record of a denial. -/
def Closes (i a : Nat) (t u : Reception) : Prop :=
  ∃ call, u.calls[i]? = some call ∧ call.ticket? = none ∧ u.service.Spent a ∧
    (call.isFailed = true → ∃ record, Tells call record ∧
      u.strike i = ((t.lift a).strike i).recordAll record)

/-- Its order goes on: it is carried out, which fails or not. -/
theorem Pending.resume (hp : Pending i c.ticket t) (h : t.Proper) (hc : t.locks.handed? = some c) :
    Closes i c.ticket t (t.proceed c.ticket (·.resume c.ticket)) := by
  obtain ⟨o, ho⟩ := hp.awaits.order
  obtain ⟨hclaim, hhanded⟩ := claim?_of_handed? h.prompt.locks.sound hc
  have hproceed : t.proceed c.ticket (·.resume c.ticket) =
      { t.onService fun s => (s.carry o).2.lift c.ticket with
        calls := t.calls.map (.ended c.ticket fun v =>
          .answered (v.conclude (t.node.respond (t.service.carry o).1))) } := by
    rw [proceed_eq, Service.resume_of_order h.prompt hclaim hhanded ho]
    rfl
  obtain ⟨visit, hended⟩ := hp.ended fun v =>
    .answered (v.conclude (t.node.respond (t.service.carry o).1))
  rw [hproceed]
  refine ⟨_, hended, rfl, hp.spent h rfl lift_fresh, ?_⟩
  intro hfailed
  cases houtcome : (t.service.carry o).1 with
  | ok v =>
    rw [houtcome] at hfailed
    simp [Call.isFailed, respond_status_ok] at hfailed
  | error f =>
    have hcarry : o.carryOut t.service.kind t.service.policy t.service.ledger =
        (.error f, (o.carryOut t.service.kind t.service.policy t.service.ledger).2) :=
      Prod.ext houtcome rfl
    have hservice : (t.service.carry o).2 =
        { t.service with ledger := t.service.ledger.recordAll (denial o.caller o.id f) } := by
      simp only [Service.carry, Order.carryOut_failed hcarry]
    refine ⟨denial o.caller o.id f, tells_of_failure ?_ o.caller o.id, ?_⟩
    · rw [Visit.conclude_status, respond_status_error]
    · simp only [strike, onService, hservice, hp.eraseIdx_ended]
      rfl

/-- Its time is up: it fails, and nothing is recorded. -/
theorem Pending.expire (hp : Pending i a t) (h : t.Proper) (hc : t.locks.claim? a = some c)
    (hwaits : c.stage.waits = true) : Closes i a t (t.proceed a (·.expire a)) := by
  obtain ⟨o, ho⟩ := hp.awaits.order
  have hexpire := Service.expire_eq h.prompt hc hwaits
  rw [ho] at hexpire
  have hproceed : t.proceed a (·.expire a) =
      { t.lift a with
        calls := t.calls.map (.ended a fun v => .answered
          (v.conclude (t.node.respond (.error (LockTable.busy o.id t.service.patience))))) } := by
    rw [proceed_eq, hexpire]
    rfl
  obtain ⟨visit, hended⟩ := hp.ended fun v => .answered
    (v.conclude (t.node.respond (.error (LockTable.busy o.id t.service.patience))))
  rw [hproceed]
  refine ⟨_, hended, rfl, hp.spent h rfl lift_fresh, fun _ => ⟨[], tells_nil ?_, ?_⟩⟩
  · rw [Visit.conclude_status, respond_status_error]
    exact Nat.ne_of_beq_eq_false rfl
  · rw [recordAll_nil]
    simp only [strike, hp.eraseIdx_ended]
    rfl

/-- A call comes to its end when something befalls its own claim. -/
theorem Pending.own (hp : Pending i a t) (h : t.Proper) (he : t.next? e = some u)
    (hown : e.ticket? = some a) : Closes i a t u := by
  rcases next_cases he with ⟨d, hd, rfl, rfl⟩ | ⟨hquiet, he⟩
  · obtain rfl := Option.some.inj hown
    exact hp.resume h hd
  · cases e with
    | expire k =>
      obtain rfl := Option.some.inj hown
      obtain ⟨⟨d, hd, hwaits⟩, rfl⟩ := map_claimAt?_eq_some.mp he
      exact hp.expire h hd hwaits
    | cancel k =>
      obtain rfl := Option.some.inj hown
      obtain ⟨⟨d, hd, hsuspended⟩, rfl⟩ := map_claimAt?_eq_some.mp he
      obtain ⟨hclaims, hfresh⟩ := h.prompt.locks.cancel_claims hd hsuspended
      obtain ⟨visit, hended⟩ := hp.ended fun _ => .dropped
      exact ⟨.dropped, hended, rfl, hp.spent h hclaims hfresh, nofun⟩
    | release k =>
      -- Nobody holds a lock under the ticket of an order that waits.
      obtain rfl := Option.some.inj hown
      obtain ⟨⟨d, hd, hheld⟩, rfl⟩ := map_claimAt?_eq_some.mp he
      obtain ⟨-, c, hc, hstage⟩ := hp.awaits
      obtain rfl := Option.some.inj (hc.symm.trans hd)
      have hheld : c.stage = .held := of_decide_eq_true hheld
      rw [hheld] at hstage
      cases hstage
    | resume k => cases he
    | request | hold | pass => cases hown

/-- Nothing befalls a claim that is gone. -/
theorem ticket?_ne_of_spent (h : t.Proper) (hs : t.service.Spent a) (he : t.next? e = some u) :
    e.ticket? ≠ some a := by
  have hgone : ∀ {k c}, t.locks.claim? k = some c → some k ≠ some a := by
    intro k c hc hk
    obtain rfl := Option.some.inj hk
    cases hs.gone.symm.trans hc
  rcases next_cases he with ⟨c, hc, rfl, -⟩ | ⟨-, he⟩
  · exact hgone (claim?_of_handed? h.prompt.locks.sound hc).1
  · cases e with
    | expire k | cancel k | release k =>
      obtain ⟨⟨c, hc, -⟩, -⟩ := map_claimAt?_eq_some.mp he
      exact hgone hc
    | resume k => cases he
    | request | hold | pass => exact nofun

theorem filter_of_spent (h : t.Proper) (hs : t.service.Spent a) (hrun : t.run? events = some u) :
    events.filter (·.ticket? ≠ some a) = events := by
  induction events generalizing t with
  | nil => rfl
  | cons e events ih =>
    obtain ⟨w, he, hrest⟩ := Option.bind_eq_some_iff.mp hrun
    have hother := ticket?_ne_of_spent h hs he
    have hspent := (next_stays h hs.lt he hother).spent hs
    rw [List.filter_cons, if_pos (decide_eq_true hother), ih (h.next he) hspent hrest]

/-- **The others do without a call that waits and fails.** From the moment at which its order waits, the
events that do not befall its claim lead to where all of them lead, but for the record of a denial and
for what is left behind by those who are dropped. -/
theorem Pending.run (hp : Pending i a t) (h : t.Proper) (hv : v.Proper)
    (hretains : Retains untidy v ((t.lift a).strike i)) (htidy : ¬ untidy → v.locks.Tidy)
    (hstay : ¬ untidy → ∀ e ∈ events, e.isCancel = false) (hrun : t.run? events = some u)
    (hcall : u.calls[i]? = some call) (hfailed : call.isFailed = true) :
    ∃ w record, v.run? (events.filter (·.ticket? ≠ some a)) = some w ∧
      Lacks untidy record w (u.strike i) ∧ Tells call record := by
  induction events generalizing t v with
  | nil =>
    cases hrun
    obtain ⟨visit, hwaits⟩ := hp.call
    obtain rfl := Option.some.inj (hwaits.symm.trans hcall)
    cases hfailed
  | cons e events ih =>
    obtain ⟨w, he, hrest⟩ := Option.bind_eq_some_iff.mp hrun
    have hrests : ¬ untidy → ∀ e ∈ events, e.isCancel = false := fun hnone e he =>
      hstay hnone e (List.mem_cons_of_mem _ he)
    by_cases hown : e.ticket? = some a
    · -- The call comes to its end; what is left of the events befalls others.
      obtain ⟨ended, hended, hclosed, hspent, hrecord⟩ := hp.own h he hown
      obtain rfl := Option.some.inj ((closed_run (h.next he) hrest hended hclosed).symm.trans hcall)
      obtain ⟨record, htells, hstrike⟩ := hrecord hfailed
      have hi : i < w.calls.length := (List.getElem?_eq_some_iff.mp hended).1
      have hlacks : Lacks untidy record v (w.strike i) := by
        rw [hstrike]
        exact lacks_recordAll hretains record
      obtain ⟨x, hx, hend⟩ := hlacks.run hv ((h.next he).strike i) htidy hrests (run?_strike hi hrest)
      refine ⟨x, record, ?_, hend, htells⟩
      rw [List.filter_cons, if_neg (by simp [hown]), filter_of_spent (h.next he) hspent hrest]
      exact hx
    · obtain ⟨c, hc, hsuspended⟩ := hp.awaits.claim
      obtain ⟨visit, hwaits⟩ := hp.call
      have hi : i < (t.lift a).calls.length := (List.getElem?_eq_some_iff.mp hwaits).1
      obtain ⟨z, hz, hlifted⟩ : ∃ z, (t.lift a).next? e = some z ∧ Retains untidy z (w.lift a) :=
        exists_next?_lift h hc hsuspended he hown
      have hstruck : ((t.lift a).strike i).next? e = some (z.strike i) := by
        rw [next?_strike hi, hz]
        rfl
      obtain ⟨y, hy, hkept⟩ := hretains.next hv ((h.lift hc hsuspended).strike i) htidy hstruck
      have htidy' : ¬ untidy → y.locks.Tidy := fun hnone =>
        tidy_next hv (htidy hnone) hy (hstay hnone e List.mem_cons_self)
      obtain ⟨x, record, hx, hend, htells⟩ := ih (hp.next h he hown) (h.next he) (hv.next hy)
        (hkept.trans (hlifted.strike i)) htidy' hrests hrest
      refine ⟨x, record, ?_, hend, htells⟩
      rw [List.filter_cons, if_pos (decide_eq_true hown)]
      exact Option.bind_eq_some_iff.mpr ⟨y, hy, hx⟩

/-! ## The moment of the request -/

theorem strike_take (h : t.Proper) (now : Nat) (r : Request) :
    (t.take now r).strike t.calls.length = t.onService fun _ => (reaction t.node now r).2 := by
  have hcalls : ∀ call : Call, (t.calls ++ [call]).eraseIdx t.calls.length = t.calls := by
    intro call
    rw [List.eraseIdx_append_of_length_le (Nat.le_refl _), Nat.sub_self, List.eraseIdx_cons_zero,
      List.append_nil]
  rw [take_eq h.executes]
  simp only [strike, hcalls]
  rfl

/-- A request that fails at once leaves nothing but the numbers that it drew and the record of a denial. If
a mutex had been left behind, it may have been taken out. -/
theorem take_failed (h : t.Proper)
    (hfailed : (callOf t.node r (reaction t.node now r).1).isFailed = true) :
    ∃ record tickets v, Tells (callOf t.node r (reaction t.node now r).1) record ∧
      Retains untidy (t.onService (·.passOver 1 tickets)) v ∧
      (t.take now r).strike t.calls.length = v.recordAll record := by
  rw [strike_take h]
  cases htask : t.node.assess now r with
  | error answer =>
    rw [reaction_of_error htask]
    refine ⟨[], 0, _, tells_nil ?_, .refl _, ?_⟩
    · rw [Visit.conclude_status]
      exact Node.assess_ne_denied htask
    · rw [recordAll_nil]
      rfl
  | ok task =>
    rw [reaction_of_task htask] at hfailed ⊢
    cases hstart : t.node.skipId.service.start? now task with
    | mk result service =>
      rw [hstart] at hfailed
      rcases result with ticket | ⟨f⟩ | ⟨v⟩
      · cases hfailed
      · obtain ⟨caller, id, locks, tickets, rfl, hlocks⟩ := Service.start?_failed h.skipId hstart
        refine ⟨denial caller id f, tickets,
          t.onService fun s => { s.passOver 1 tickets with locks }, tells_of_failure ?_ caller id,
          ?_, rfl⟩
        · rw [Visit.conclude_status, respond_status_error]
        · exact (Retains.refl t).onService ⟨_, rfl, hlocks⟩
      · simp [callOf, Call.isFailed, respond_status_ok] at hfailed

/-- A request whose order waits leaves nothing but the numbers that it drew and the order. -/
theorem take_waiting (h : t.Proper)
    (hwaits : (callOf t.node r (reaction t.node now r).1).ticket? = some a) :
    Pending t.calls.length a (t.take now r) ∧
      ((t.take now r).lift a).strike t.calls.length = t.onService (·.passOver 1 2) := by
  have hfresh := (h.ticket_callOf hwaits).1
  cases htask : t.node.assess now r with
  | error answer =>
    rw [reaction_of_error htask] at hwaits
    cases hwaits
  | ok task =>
    cases hstart : t.node.skipId.service.start? now task with
    | mk result service =>
      have hreaction : reaction t.node now r = (.ok result, service) := by
        rw [reaction_of_task htask, hstart]
      rw [hreaction] at hwaits
      rcases result with ticket | outcome
      · obtain rfl := Option.some.inj hwaits
        obtain ⟨-, -, horder, ⟨c, hc, hstage⟩, hlift⟩ := Service.start?_waiting h.skipId hstart
        have htake : t.take now r = { t.onService fun _ => service with
            calls := t.calls ++ [.waiting ticket (t.node.visitOf r)] } := by
          rw [take_eq h.executes, hreaction]
          rfl
        refine ⟨⟨⟨t.node.visitOf r, ?_⟩, ?_, ?_⟩, ?_⟩
        · rw [htake]
          exact List.getElem?_concat_length
        · intro j call hj hticket
          rw [htake] at hj
          by_contra hne
          have hold : j < t.calls.length := by
            have hlt := (List.getElem?_eq_some_iff.mp hj).1
            simp only [List.length_append, List.length_singleton] at hlt
            omega
          rw [List.getElem?_append_left hold] at hj
          have hlt := h.given call (List.mem_of_getElem? hj) ticket hticket
          omega
        · rw [htake]
          exact ⟨horder, c, hc, Stage.isSuspended_of_waits hstage⟩
        · show ((t.take now r).strike t.calls.length).lift ticket = _
          rw [strike_take h, hreaction]
          show t.onService (fun _ => service.lift ticket) = _
          rw [hlift]
          rfl
      · cases hwaits

/-! ## The events of the others -/

theorem next?_pass (hquiet : t.locks.handed? = none) (identifiers tickets : Nat) :
    t.next? (.pass identifiers tickets) = some (t.onService (·.passOver identifiers tickets)) := by
  unfold next?
  rw [hquiet]
  rfl

theorem take_getElem? (h : t.Proper) (now : Nat) (r : Request) :
    (t.take now r).calls[t.calls.length]? = some (callOf t.node r (reaction t.node now r).1) := by
  rw [take_eq h.executes]
  exact List.getElem?_concat_length

/-- The others have the numbers passed over that the request drew, and go on without its claim. -/
theorem others_request (h : t.Proper) (hquiet : t.locks.handed? = none) (events : List Event)
    {identifiers tickets : Nat}
    (hledger : (t.take now r).ledger.fresh = t.ledger.fresh + identifiers)
    (hlocks : (t.take now r).locks.fresh = t.locks.fresh + tickets) :
    t.others t.calls.length (.request now r :: events) =
      .pass identifiers tickets ::
        besides (callOf t.node r (reaction t.node now r).1).ticket? events := by
  have hnext : t.next? (.request now r) = some (t.take now r) := by
    unfold next?
    rw [hquiet]
    rfl
  simp only [others, hnext, Event.isRequest, decide_true, Bool.and_self, ↓reduceIte, hledger, hlocks,
    Nat.add_sub_cancel_left, take_getElem? h, Option.bind_some]

/-- The others do without a request that fails at once. -/
theorem run?_others_failed (h : t.Proper) (hquiet : t.locks.handed? = none)
    (htidy : ¬ untidy → t.locks.Tidy) (hstay : ¬ untidy → ∀ e ∈ events, e.isCancel = false)
    (hrun : (t.take now r).run? events = some u)
    (hfailed : (callOf t.node r (reaction t.node now r).1).isFailed = true) :
    ∃ v record, t.run? (t.others t.calls.length (.request now r :: events)) = some v ∧
      Lacks untidy record v (u.strike t.calls.length) ∧
      Tells (callOf t.node r (reaction t.node now r).1) record := by
  obtain ⟨record, tickets, x, htells, hretains, hstrike⟩ := @take_failed _ _ _ untidy h hfailed
  have hledger : x.ledger = (t.service.passOver 1 tickets).ledger := hretains.service.ledger.symm
  have hidentifiers : (t.take now r).ledger.fresh = t.ledger.fresh + 1 :=
    (congrArg (·.ledger.fresh) hstrike).trans (congrArg Ledger.fresh hledger)
  have htickets : (t.take now r).locks.fresh = t.locks.fresh + tickets :=
    (congrArg (·.locks.fresh) hstrike).trans hretains.locks.fresh.symm
  have hothers := others_request h hquiet events hidentifiers htickets
  have hclosed : (callOf t.node r (reaction t.node now r).1).ticket? = none := by
    cases hcall : callOf t.node r (reaction t.node now r).1 with
    | waiting k visit =>
      rw [hcall] at hfailed
      cases hfailed
    | _ => rfl
  have hlength : t.calls.length < (t.take now r).calls.length := by
    rw [length_take]
    exact Nat.lt_succ_self _
  have hlacks : Lacks untidy record (t.onService (·.passOver 1 tickets))
      ((t.take now r).strike t.calls.length) := by
    rw [hstrike]
    exact lacks_recordAll hretains record
  obtain ⟨v, hv, hend⟩ := hlacks.run (h.pass 1 tickets) ((h.take now r).strike _) htidy hstay
    (run?_strike hlength hrun)
  refine ⟨v, record, ?_, hend, htells⟩
  rw [hothers, hclosed]
  exact Option.bind_eq_some_iff.mpr ⟨_, next?_pass hquiet 1 tickets, hv⟩

/-- The others do without a request whose order waits and fails. -/
theorem run?_others_waiting (h : t.Proper) (hquiet : t.locks.handed? = none)
    (htidy : ¬ untidy → t.locks.Tidy) (hstay : ¬ untidy → ∀ e ∈ events, e.isCancel = false)
    (hrun : (t.take now r).run? events = some u)
    (hwaits : (callOf t.node r (reaction t.node now r).1).ticket? = some a)
    (hcall : u.calls[t.calls.length]? = some call) (hfailed : call.isFailed = true) :
    ∃ v record, t.run? (t.others t.calls.length (.request now r :: events)) = some v ∧
      Lacks untidy record v (u.strike t.calls.length) ∧ Tells call record := by
  obtain ⟨hpending, hstrike⟩ := take_waiting h hwaits
  have hlocks : ((t.take now r).locks.lift a).fresh = t.locks.fresh + 2 :=
    congrArg (·.locks.fresh) hstrike
  rw [lift_fresh] at hlocks
  have hothers := others_request h hquiet events
    (show _ = t.ledger.fresh + 1 from congrArg (·.ledger.fresh) hstrike) hlocks
  have hretains : Retains untidy (t.onService (·.passOver 1 2))
      (((t.take now r).lift a).strike t.calls.length) := by
    rw [hstrike]
    exact .refl _
  obtain ⟨v, record, hv, hend, htells⟩ := hpending.run (h.take now r) (h.pass 1 2) hretains htidy
    hstay hrun hcall hfailed
  refine ⟨v, record, ?_, hend, htells⟩
  rw [hothers, hwaits]
  exact Option.bind_eq_some_iff.mpr ⟨_, next?_pass hquiet 1 2, hv⟩

/-- **The others do without a request that fails.** -/
theorem run?_others (h : t.Proper) (htidy : ¬ untidy → t.locks.Tidy)
    (hstay : ¬ untidy → ∀ e ∈ events, e.isCancel = false) (hrun : t.run? events = some u)
    (hi : t.calls.length ≤ i) (hcall : u.calls[i]? = some call) (hfailed : call.isFailed = true) :
    ∃ v record, t.run? (t.others i events) = some v ∧ Lacks untidy record v (u.strike i) ∧
      Tells call record := by
  induction events generalizing t with
  | nil =>
    cases hrun
    rw [List.getElem?_eq_none hi] at hcall
    cases hcall
  | cons e events ih =>
    obtain ⟨w, he, hrest⟩ := Option.bind_eq_some_iff.mp hrun
    have hlength := length_next he
    have hrests : ¬ untidy → ∀ e ∈ events, e.isCancel = false := fun hnone e he =>
      hstay hnone e (List.mem_cons_of_mem _ he)
    by_cases hthis : e.isRequest = true ∧ t.calls.length = i
    · obtain ⟨hrequest, rfl⟩ := hthis
      rcases next_cases he with ⟨c, -, rfl, -⟩ | ⟨hquiet, he⟩
      · cases hrequest
      · cases e with
        | request now r =>
          have hquiet := hquiet.resolve_right nofun
          obtain rfl := Option.some.inj he
          cases hticket : (callOf t.node r (reaction t.node now r).1).ticket? with
          | none =>
            have hclosed := closed_run (h.take now r) hrest (take_getElem? h now r) hticket
            obtain rfl := Option.some.inj (hclosed.symm.trans hcall)
            exact run?_others_failed h hquiet htidy hrests hrest hfailed
          | some a => exact run?_others_waiting h hquiet htidy hrests hrest hticket hcall hfailed
        | _ => cases hrequest
    · have hnext : w.calls.length ≤ i := by
        rw [hlength]
        split
        next hrequest =>
          have hne : t.calls.length ≠ i := fun heq => hthis ⟨hrequest, heq⟩
          omega
        next => exact hi
      have htidy' : ¬ untidy → w.locks.Tidy := fun hnone =>
        tidy_next h (htidy hnone) he (hstay hnone e List.mem_cons_self)
      obtain ⟨v, record, hv, hend, htells⟩ := ih (h.next he) htidy' hrests hrest hnext
      refine ⟨v, record, ?_, hend, htells⟩
      simp only [others, he, Bool.and_eq_true, decide_eq_true_eq, hthis, ↓reduceIte]
      exact Option.bind_eq_some_iff.mpr ⟨w, he, hv⟩

/-! ## Any number of failures -/

theorem getElem?_strikes {struck : List Nat} (h : ∀ j ∈ struck, i < j) :
    (struck.foldr strike t).calls[i]? = t.calls[i]? := by
  induction struck with
  | nil => rfl
  | cons j struck ih =>
    obtain ⟨hj, hrest⟩ := List.forall_mem_cons.mp h
    show ((struck.foldr strike t).calls.eraseIdx j)[i]? = _
    rw [List.getElem?_eraseIdx_of_lt hj, ih hrest]

/-- What the events of the others come to, compared with all of them. -/
structure NoTrace (untidy : Prop) (failed : List Nat) (t u : Reception) (records : List Audit.Entry) :
    Prop where
  /-- Each of the others has the answer that it had. Where there may be mutexes that nobody wants, it may
  be told of more locks when it asks how many there are. -/
  calls : List.Forall₂ (Call.Alike untidy) u.calls (failed.foldr strike t).calls
  store : u.ledger.store = t.ledger.store
  /-- The claims are the same, and there is no mutex that would not be there without the failed
  requests. -/
  locks : u.locks.Retains t.locks
  /-- There is every other mutex too, but for those that nobody wants, where there may be such. -/
  mutexes : ∀ id, (u.locks.mutexes.lookup id).isSome →
    (t.locks.mutexes.lookup id).isSome ∨ untidy ∧ ∀ c ∈ u.locks.claims, c.id ≠ id
  sublist : u.ledger.trail.Sublist t.ledger.trail
  /-- The trail has nothing more than theirs but the records. -/
  perm : t.ledger.trail.Perm (u.ledger.trail ++ records)
  /-- There is a record for each of the failed requests that was denied. -/
  count : records.length = failed.countP fun i => (t.calls[i]?).any Call.isDenied
  denials : ∀ entry ∈ records, ∃ caller id reason, entry = ⟨caller, .authorizationDenied id reason⟩

/-- Where nothing was left behind, the others have the very answers that they had, and the same mutexes are
in the table. -/
theorem NoTrace.exact {failed : List Nat} {records : List Audit.Entry}
    (h : NoTrace untidy failed t u records) (hnone : ¬ untidy) :
    u.calls = (failed.foldr strike t).calls ∧
      ∀ id, (u.locks.mutexes.lookup id).isSome = (t.locks.mutexes.lookup id).isSome := by
  constructor
  · rw [← List.forall₂_eq_eq_eq]
    exact h.calls.imp fun _ _ halike => halike.eq hnone
  · intro id
    refine Bool.eq_iff_iff.mpr ⟨fun hid => ?_, h.locks.entries id⟩
    exact (h.mutexes id hid).resolve_right fun hmay => hnone hmay.1

theorem besides_stay {ticket? : Option Nat} (h : ∀ e ∈ events, e.isCancel = false) :
    ∀ e ∈ besides ticket? events, e.isCancel = false := by
  cases ticket? with
  | none => exact h
  | some ticket => exact fun e he => h e (List.mem_filter.mp he).1

/-- The others have nobody dropped who was not. -/
theorem others_stay (h : ∀ e ∈ events, e.isCancel = false) :
    ∀ e ∈ t.others i events, e.isCancel = false := by
  induction events generalizing t with
  | nil => exact h
  | cons e events ih =>
    obtain ⟨hfirst, hrest⟩ := List.forall_mem_cons.mp h
    unfold others
    cases t.next? e with
    | none => exact h
    | some u =>
      simp only
      split
      · exact List.forall_mem_cons.mpr ⟨rfl, besides_stay hrest⟩
      · exact List.forall_mem_cons.mpr ⟨hfirst, ih hrest⟩

theorem foldr_others_stay (h : ∀ e ∈ events, e.isCancel = false) (failed : List Nat) :
    ∀ e ∈ failed.foldr (others t) events, e.isCancel = false := by
  induction failed with
  | nil => exact h
  | cons i failed ih => exact others_stay ih

/-- **Failures leave no trace.** A node that carries requests out itself, with whatever locks, takes any
requests in any course of events. Whichever of the failed ones are left out, what the others do alone is
possible, gives each of them the answer that it had, and leads to the same inlets, the same claims and the
same trail but for one entry for each of the requests that was denied. The mutexes in the table are the
same too, but that a failed request may have taken out one that was left behind, be it before the first
event or by somebody who was dropped since. -/
theorem failures_leave_no_trace {failed : List Nat} (hlocal : n.membership.mustForward = false)
    (hrest : n.service.Prompt)
    (hrun : (⟨n, []⟩ : Reception).run? events = some t) (hsorted : failed.Pairwise (· < ·))
    (hfailed : ∀ i ∈ failed, ∃ call, t.calls[i]? = some call ∧ call.isFailed = true) :
    ∃ u records, (⟨n, []⟩ : Reception).run? (failed.foldr (others ⟨n, []⟩) events) = some u ∧
      NoTrace (¬ n.service.locks.Tidy ∨ ∃ e ∈ events, e.isCancel = true) failed t u records := by
  have hstart : Proper ⟨n, []⟩ := ⟨hlocal, hrest, nofun⟩
  generalize huntidy : (¬ n.service.locks.Tidy ∨ ∃ e ∈ events, e.isCancel = true) = untidy
  have htidy : ¬ untidy → LockTable.Tidy (Reception.locks ⟨n, []⟩) := by
    rintro hnone
    by_contra hleft
    exact hnone (huntidy ▸ Or.inl hleft)
  have hstay : ∀ failed : List Nat, ¬ untidy →
      ∀ e ∈ failed.foldr (others ⟨n, []⟩) events, e.isCancel = false := fun failed hnone =>
    foldr_others_stay (fun e he => Bool.eq_false_iff.mpr fun hcancel =>
      hnone (huntidy ▸ Or.inr ⟨e, he, hcancel⟩)) failed
  -- The last of them are left out first, so that the calls before them keep their places.
  induction failed with
  | nil =>
    exact ⟨t, [], hrun, List.forall₂_same.mpr fun call _ => .refl call, rfl, .refl _,
      fun _ hid => Or.inl hid, List.Sublist.refl _, by simp, rfl, nofun⟩
  | cons i failed ih =>
    obtain ⟨hfirst, hrest⟩ := List.pairwise_cons.mp hsorted
    obtain ⟨⟨call, hcall, hthis⟩, hothers⟩ := List.forall_mem_cons.mp hfailed
    obtain ⟨v, records, hv, hbefore⟩ := ih hrest hothers
    obtain ⟨kept, hkept, halike⟩ := exists_getElem?_of_forall₂ hbefore.calls
      ((getElem?_strikes hfirst).trans hcall)
    obtain rfl := halike.eq_of_failed hthis
    obtain ⟨u, record, hu, hlacks, htells⟩ := run?_others hstart htidy (hstay failed) hv
      (Nat.zero_le i) hkept hthis
    have ht := hstart.run hrun
    have hlocks := hlacks.locks.trans hbefore.locks
    refine ⟨u, record ++ records, hu, ?_, hlacks.store.trans hbefore.store, hlocks, ?_,
      hlacks.sublist.trans hbefore.sublist, ?_, ?_, ?_⟩
    · exact forall₂_trans Relation.ReflTransGen.trans hlacks.calls (forall₂_eraseIdx hbefore.calls i)
    · intro id hid
      by_cases hmay : untidy
      · exact (hlocks.left_behind ht.prompt.locks.sound hid).imp_right fun hnone => ⟨hmay, hnone⟩
      · have hend := tidy_run hstart (htidy hmay) (hstay (i :: failed) hmay) hu
        rw [← hlocks.lookup_isSome ht.prompt.locks.sound hend id]
        exact Or.inl hid
    · rw [← List.append_assoc]
      exact hbefore.perm.trans (hlacks.perm.append_right records)
    · rw [List.length_append, htells.length, hbefore.count, List.countP_cons, hcall, Option.any_some,
        Nat.add_comm]
    · intro entry hentry
      rcases List.mem_append.mp hentry with hnew | hold
      · exact htells.denials entry hnew
      · exact hbefore.denials entry hold

/-- A node with two inlets, where nobody may do anything to the second. -/
def keeper : Node :=
  .ofConfig { Config.default with
    grants := [⟨"*", "/input-ports/p1", [.read, .write]⟩]
    inlets := [⟨"p1", "in", "", .stopped, 1⟩, ⟨"p2", "in", "", .stopped, 1⟩] } 0

/-- A removal of the first inlet that claims a version which it never had. -/
def staleRemoval : Request := ⟨"DELETE", ⟨"/input-ports/p1", some "version=7"⟩, [], []⟩

/-- While the first inlet is in use, a stale removal waits for it; a request for the second is denied;
and then the first is removed in its own version. -/
def removals : List Event :=
  [.hold 0 "p1" ⟨0⟩, .request 0 staleRemoval, .request 0 ⟨"GET", ⟨"/input-ports/p2", none⟩, [], []⟩,
    .release 1, .resume 3, .request 0 Node.removal]

/-- Without the stale removal and without the request that was denied, the removal does what it did. -/
theorem failures_leave_no_trace_removal :
    ∃ t u records, (⟨keeper, []⟩ : Reception).run? removals = some t ∧
      t.calls.map Call.isFailed = [true, true, false] ∧
      (⟨keeper, []⟩ : Reception).run? ([0, 1].foldr (others ⟨keeper, []⟩) removals) = some u ∧
      NoTrace (¬ keeper.service.locks.Tidy ∨ ∃ e ∈ removals, e.isCancel = true) [0, 1] t u records := by
  have hcourse : ((⟨keeper, []⟩ : Reception).run? removals).map (fun t => t.calls.map Call.isFailed) =
      some [true, true, false] := by decide +kernel
  obtain ⟨t, hrun, hcalls⟩ := Option.map_eq_some_iff.mp hcourse
  have hfailed : ∀ i ∈ [0, 1], ∃ call, t.calls[i]? = some call ∧ call.isFailed = true := by
    intro i hi
    have hthis : (t.calls.map Call.isFailed)[i]? = some true := by
      rw [hcalls]
      rcases List.mem_pair.mp hi with rfl | rfl <;> rfl
    rw [List.getElem?_map] at hthis
    exact Option.map_eq_some_iff.mp hthis
  obtain ⟨u, records, hothers⟩ :=
    failures_leave_no_trace (n := keeper) (by decide) (.start rfl rfl) hrun (by decide) hfailed
  exact ⟨t, u, records, hrun, hcalls, hothers⟩

/-- The lock of the first inlet is handed to a stale removal whose client goes away, and then comes
another. -/
def abandonedRemoval : List Event :=
  [.hold 0 "p1" ⟨0⟩, .request 0 staleRemoval, .release 1, .cancel 3, .request 0 staleRemoval]

/-- It is not so that the locks are as many as without a request that failed. -/
theorem not_as_many_locks_without_failed :
    ¬ ∀ (events : List Event) (t u : Reception) (i : Nat) (call : Call),
      (⟨keeper, []⟩ : Reception).run? events = some t → t.calls[i]? = some call →
        call.isFailed = true → (⟨keeper, []⟩ : Reception).run? (others ⟨keeper, []⟩ i events) = some u →
          u.locks.size = t.locks.size := by
  intro h
  have hcourse : ((⟨keeper, []⟩ : Reception).run? abandonedRemoval).map (fun t =>
      (t.locks.size, (t.calls[1]?).map Call.isFailed)) = some (0, some true) := by decide +kernel
  have hothers : ((⟨keeper, []⟩ : Reception).run? (others ⟨keeper, []⟩ 1 abandonedRemoval)).map
      (fun u => u.locks.size) = some 1 := by decide +kernel
  obtain ⟨t, hrun, hends⟩ := Option.map_eq_some_iff.mp hcourse
  obtain ⟨u, hrun', hsize'⟩ := Option.map_eq_some_iff.mp hothers
  obtain ⟨hsize, hcall⟩ := Prod.mk.inj hends
  obtain ⟨call, hcall, hfailed⟩ := Option.map_eq_some_iff.mp hcall
  have heq := h abandonedRemoval t u 1 call hrun hcall hfailed hrun'
  rw [hsize, hsize'] at heq
  cases heq

end InletRegistry.Reception
