import InletRegistry.Proofs.Registry.Lineage
import InletRegistry.Proofs.Registry.Outcomes
import Mathlib.Data.List.Perm.Basic

/-!
# The trail is exact

The trail is written in two places. A denial goes down the moment it is decided, which for an order is
while it holds its lock; a change goes down after its order has let go of the lock, so changes may go
down in another order than they took effect, and there is a moment at which a change has taken effect
and is not on record yet.

At every moment the trail holds the entries of the requests whose outcome it knows of (`settled?`), one
by one, and nothing else; and its entries of changes, with those that are still due, are those of the
history. When every request has been answered, both say what came of the requests: each change and
each denial has one entry, and nothing else has any.
-/

namespace InletRegistry.Audit

/-- The version that an entry says an inlet has been updated to. -/
def Entry.updateOf? (id : String) (e : Entry) : Option (Option Nat) :=
  match e.event with
  | .resourceUpdated _ i version => if i = id then some version else none
  | _ => none

/-- Whether an entry tells that an inlet was removed. -/
def Entry.isRemovalOf (id : String) (e : Entry) : Bool :=
  match e.event with
  | .resourceDeleted _ i _ => i = id
  | _ => false

/-- Whether an entry tells of a change. -/
def Entry.isChange (e : Entry) : Bool :=
  match e.event with
  | .authorizationDenied _ _ => false
  | _ => true

/-- The versions that a trail says an inlet has been updated to. -/
def versionsOf (id : String) (trail : List Entry) : List (Option Nat) :=
  trail.filterMap (Entry.updateOf? id)

/-- The entries of a trail which tell that an inlet was removed. -/
def removalsOf (id : String) (trail : List Entry) : List Entry := trail.filter (Entry.isRemovalOf id)

/-- Denials say nothing of versions. -/
theorem versionsOf_filter_isChange (id : String) (trail : List Entry) :
    versionsOf id (trail.filter Entry.isChange) = versionsOf id trail := by
  unfold versionsOf
  rw [List.filterMap_filter]
  refine List.filterMap_congr fun e _ => ?_
  obtain ⟨principal, event⟩ := e
  cases event <;> rfl

theorem removalsOf_filter_isChange (id : String) (trail : List Entry) :
    removalsOf id (trail.filter Entry.isChange) = removalsOf id trail := by
  unfold removalsOf
  rw [List.filter_filter]
  refine List.filter_congr fun e _ => ?_
  obtain ⟨principal, event⟩ := e
  cases event <;> simp [Entry.isRemovalOf, Entry.isChange]

end InletRegistry.Audit

namespace InletRegistry.Registry

open InletRegistry.Access InletRegistry.Audit InletRegistry.Cluster InletRegistry.Text
  InletRegistry.Time InletRegistry.Write

variable {kind caller id : String} {f : Failure} {v : Versioned Inlet} {q : Inquiry}

/-! ## What the trail has of each request -/

/-- What a request leaves in the trail when it comes to an outcome. -/
def Inquiry.told (kind : String) (q : Inquiry) : Outcome → List Entry
  | .error f => denial q.caller q.id f
  | .ok v =>
    match q.op with
    | .get => []
    | .update _ => [⟨q.caller, .resourceUpdated kind q.id v.revision.version⟩]
    | .delete version _ => [⟨q.caller, .resourceDeleted kind q.id version.isNone⟩]

namespace Job

/-- The outcome of a job, once the trail has what there is to tell of it. -/
def settled? : Job → Option Outcome
  | refused f => some (.error f)
  | shown _ _ outcome => some outcome
  | working _ _ (.ended (.error f)) => some (.error f)
  | answered _ outcome => some outcome
  | _ => none

/-- What the trail has of a job. -/
def entries (kind : String) : Job → List Entry
  | shown caller id (.error f) => denial caller id f
  | working o _ (.ended (.error f)) => denial o.caller o.id f
  | answered o (.error f) => denial o.caller o.id f
  | answered o (.ok v) => [⟨o.caller, o.event kind v⟩]
  | _ => []

/-- The entry of a change that has taken effect and is not on record yet. -/
def due? (kind : String) : Job → Option Entry
  | working o _ (.ended (.ok v)) => some ⟨o.caller, o.event kind v⟩
  | recording o v => some ⟨o.caller, o.event kind v⟩
  | _ => none

/-- When a job is over, its outcome is its answer, -/
theorem settled?_of_isOver {job : Job} (h : job.isOver = true) : job.settled? = job.outcome? := by
  cases job with
  | working => cases h
  | _ => rfl

/-- and nothing is due. -/
theorem due?_of_isOver {job : Job} (h : job.isOver = true) : job.due? kind = none := by
  cases job with
  | working | recording => cases h
  | _ => rfl

end Job

/-- A change that was asked for leaves what its order leaves. -/
theorem Inquiry.told_ok {o : Order} (h : q.task kind = .ok (.order o)) :
    q.told kind (.ok v) = [⟨o.caller, o.event kind v⟩] := by
  obtain ⟨hcaller, hid, ⟨body, p, hop, hchange⟩ | ⟨version, clientId, hop, hchange, hversion⟩⟩ :=
    Inquiry.order_of_task h
  · simp only [told, Order.event, hop, hchange, hcaller, hid]
  · simp only [told, Order.event, hop, hchange, hcaller, hid, Revision.isUnconditional, hversion]

/-- What the trail has of a job is what its request leaves when it comes to its outcome. -/
theorem Job.Concerns.entries {job : Job} (h : job.Concerns kind q) :
    job.entries kind = job.settled?.elim [] (q.told kind) := by
  cases job with
  | refused f =>
    obtain ⟨text, rfl⟩ := Operation.badRequest_of_toTask h
    rfl
  | shown caller id outcome =>
    obtain ⟨hop, rfl, rfl⟩ := Inquiry.view_of_task h
    cases outcome with
    | error f => rfl
    | ok v => simp only [Job.entries, Job.settled?, Option.elim_some, Inquiry.told, hop]
  | working o k progress =>
    obtain ⟨hcaller, hid, -⟩ := Inquiry.order_of_task h
    rcases progress with ⟨phase⟩ | ⟨⟨f⟩ | ⟨v⟩⟩
    · rfl
    · simp only [Job.entries, Job.settled?, Option.elim_some, Inquiry.told, hcaller, hid]
    · rfl
  | answered o outcome =>
    cases outcome with
    | error f =>
      obtain ⟨hcaller, hid, -⟩ := Inquiry.order_of_task h
      simp only [Job.entries, Job.settled?, Option.elim_some, Inquiry.told, hcaller, hid]
    | ok v => exact (Inquiry.told_ok h).symm
  | _ => rfl

/-- Requests and jobs that belong together say the same of the trail. -/
theorem flatMap_entries {asked : List Inquiry} {jobs : List Job}
    (h : List.Forall₂ (Job.Concerns kind) asked jobs) :
    jobs.flatMap (Job.entries kind) =
      (asked.zip jobs).flatMap fun x => x.2.settled?.elim [] (x.1.told kind) := by
  induction h with
  | nil => rfl
  | cons hhead _ ih =>
    rw [List.flatMap_cons, List.zip_cons_cons, List.flatMap_cons, ih, hhead.entries]

/-- When all jobs are over, what is settled are the answers. -/
theorem flatMap_settled {asked : List Inquiry} {jobs : List Job}
    (h : ∀ job ∈ jobs, job.isOver = true) :
    ((asked.zip jobs).flatMap fun x => x.2.settled?.elim [] (x.1.told kind)) =
      (asked.zip jobs).flatMap fun x => x.2.outcome?.elim [] (x.1.told kind) := by
  refine List.flatMap_congr fun x hx => ?_
  rw [Job.settled?_of_isOver (h x.2 (List.of_mem_zip hx).2)]

/-! ## One turn -/

/-- A step that ends an order with a failure records a denial, if it is one. -/
theorem Order.advance_recorded {o : Order} {policy : Policy} {l l' : Ledger} {phase : Phase}
    (hp : o.Passed policy l.store phase)
    (h : (o.steps policy).advance o.revision l phase = (.ended (.error f), l')) :
    l'.trail = l.trail ++ denial o.caller o.id f := by
  cases phase with
  | authorizing =>
    simp only [Steps.advance] at h
    split at h
    next hdenied =>
      obtain ⟨hf, rfl⟩ := Prod.mk.inj h
      rw [Ledger.authorize_failed hdenied, Except.error.inj (Progress.ended.inj hf)]
      rfl
    next => cases h
  | verifying =>
    simp only [Steps.advance] at h
    split at h
    next hrefused =>
      obtain ⟨hf, rfl⟩ := Prod.mk.inj h
      rw [← Except.error.inj (Progress.ended.inj hf), denial_asPrecondition, List.append_nil]
      exact congrArg Ledger.trail (Prod.mk.inj hrefused).2.symm
    next => cases h
  | checking =>
    simp only [Steps.advance] at h
    split at h
    next hstale =>
      obtain ⟨hf, rfl⟩ := Prod.mk.inj h
      rw [← Except.error.inj (Progress.ended.inj hf), checkRevision_failed hstale, List.append_nil]
      exact congrArg Ledger.trail ((congrArg Prod.snd hstale).symm.trans checkRevision_ledger)
    next => cases h
  | executing =>
    obtain ⟨v, hv⟩ := execute_of_passed hp (Uuid.ofNat l.fresh)
    have hf : (o.execute (Uuid.ofNat l.fresh) l.store).1 = .error f :=
      Progress.ended.inj (Prod.mk.inj h).1
    rw [hv] at hf
    cases hf

/-- The last step records nothing. -/
theorem Order.advance_unrecorded {o : Order} {policy : Policy} {l l' : Ledger} {phase : Phase}
    (h : (o.steps policy).advance o.revision l phase = (.ended (.ok v), l')) : l'.trail = l.trail := by
  obtain ⟨rfl, -⟩ := advance_done h
  obtain ⟨-, rfl⟩ := Prod.mk.inj h
  rfl

namespace Traffic

variable {t u : Traffic} {e : Event} {events : List Event} {n : Nat} {job job' : Job}
  {locks : LockTable} {ledger : Ledger} {cs : List Commit}

theorem entries_receive (t : Traffic) (caller id : String) (op : Operation) :
    (t.receive caller id op).entries kind = [] := by
  unfold receive
  cases op.toTask t.kind caller id with
  | error f => rfl
  | ok task =>
    simp only
    split
    · rfl
    · cases task <;> rfl

/-- A look at an inlet records a denial, if it is one. -/
theorem look_recorded {caller id : String} {cleared : Bool}
    (h : t.look caller id cleared = (job, ledger)) :
    ledger.trail = t.ledger.trail ++ job.entries kind := by
  unfold look at h
  split at h
  next =>
    obtain ⟨rfl, rfl⟩ := Prod.mk.inj h
    cases hget : t.store.get id with
    | ok v => exact (List.append_nil _).symm
    | error f =>
      rw [Store.get_failure hget]
      exact (List.append_nil _).symm
  next =>
    split at h
    next hallowed =>
      obtain ⟨rfl, rfl⟩ := Prod.mk.inj h
      rw [(Ledger.authorize_ok hallowed).2]
      exact (List.append_nil _).symm
    next hdenied =>
      obtain ⟨rfl, rfl⟩ := Prod.mk.inj h
      rw [Ledger.authorize_failed hdenied]
      rfl

/-- What a turn adds to the trail it adds to what the trail has of its job. -/
theorem Turn.recorded (h : t.Turn job job' locks ledger) (hchecked : job.Checked t.policy t.store) :
    ∃ added, ledger.trail = t.ledger.trail ++ added ∧
      job'.entries t.kind = job.entries t.kind ++ added := by
  have hnothing : ∃ added, t.ledger.trail = t.ledger.trail ++ added ∧
      ([] : List Entry) = [] ++ added := ⟨[], (List.append_nil _).symm, rfl⟩
  cases h with
  | look hlook => exact ⟨_, look_recorded hlook, rfl⟩
  | claim | enter => exact hnothing
  | giveUp _ _ hend => rcases hend with rfl | rfl <;> exact hnothing
  | @step o k phase progress _ hstep =>
    cases progress with
    | due next =>
      rw [Order.advance_due hstep]
      exact hnothing
    | ended outcome =>
      cases outcome with
      | error f => exact ⟨_, Order.advance_recorded hchecked hstep, rfl⟩
      | ok v =>
        rw [Order.advance_unrecorded hstep]
        exact hnothing
  | @leave o k outcome _ _ =>
    cases outcome with
    | error f => exact ⟨[], (List.append_nil _).symm, (List.append_nil _).symm⟩
    | ok v => exact hnothing
  | record => exact ⟨_, rfl, rfl⟩

/-! ## The whole trail -/

/-- What one place of a list gets more, the whole gets more. -/
theorem flatMap_set_perm {α β : Type} {g : α → List β} {l : List α} {a b : α} {added : List β}
    (h : l[n]? = some a) (hb : g b = g a ++ added) :
    ((l.set n b).flatMap g).Perm (l.flatMap g ++ added) := by
  induction l generalizing n with
  | nil => cases h
  | cons c l ih =>
    cases n with
    | zero =>
      obtain rfl := Option.some.inj h
      rw [List.set_cons_zero, List.flatMap_cons, List.flatMap_cons, hb, List.append_assoc,
        List.append_assoc]
      exact List.perm_append_comm.append_left (g c)
    | succ n =>
      rw [List.set_cons_succ, List.flatMap_cons, List.flatMap_cons, List.append_assoc]
      exact (ih h).append_left (g c)

/-- The trail has what it has of the jobs. -/
theorem trail_perm (horderly : t.Orderly) (hjobs : t.jobs = []) (htrail : t.ledger.trail = [])
    (h : t.run? events = some u) : u.ledger.trail.Perm (u.jobs.flatMap (Job.entries u.kind)) := by
  refine (course?_invariant (P := fun u => u.Orderly ∧
    u.ledger.trail.Perm (u.jobs.flatMap (Job.entries u.kind))) ?_ ?_ h).2
  · rw [hjobs, htrail]
    exact ⟨horderly, .refl _⟩
  · rintro s e v ⟨hs, hperm⟩ he
    refine ⟨hs.next he, ?_⟩
    rcases next?_cases he with ⟨caller, id, op, -, rfl⟩ | ⟨n, a, job, job', locks, ledger, -, hn,
      hturn, rfl⟩ | ⟨l, locks, -, -, -, rfl⟩ | ⟨call, -, rfl⟩
    · simp only [List.flatMap_append, List.flatMap_singleton, entries_receive, List.append_nil]
      exact hperm
    · obtain ⟨added, htrail, hadded⟩ := hturn.recorded (hs.checked n job hn)
      simp only [htrail]
      exact (hperm.append_right added).trans (flatMap_set_perm hn hadded).symm
    · exact hperm
    · exact hperm

end Traffic

/-! ## The trail and the history -/

/-- What the trail has of a change. -/
def Commit.entry (kind : String) (c : Commit) : Entry := ⟨c.order.caller, c.order.event kind c.result⟩

theorem denial_not_change : (denial caller id f).filter Entry.isChange = [] := by
  cases f <;> rfl

/-- A change that a job has carried out is on record or due. -/
theorem Job.entries_isChange (kind : String) (job : Job) :
    (job.entries kind).filter Entry.isChange ++ (job.due? kind).toList =
      (job.carriedOut?.map fun x => ⟨x.1.caller, x.1.event kind x.2⟩).toList := by
  have hevent : ∀ (o : Order) (v : Versioned Inlet),
      (⟨o.caller, o.event kind v⟩ : Entry).isChange = true := by
    intro o v
    unfold Order.event Entry.isChange
    cases o.change <;> rfl
  cases job with
  | shown caller id outcome =>
    cases outcome with
    | error f => exact congrArg (· ++ []) denial_not_change
    | ok v => rfl
  | working o k progress =>
    rcases progress with ⟨phase⟩ | ⟨⟨f⟩ | ⟨v⟩⟩
    · rfl
    · exact congrArg (· ++ []) denial_not_change
    · rfl
  | answered o outcome =>
    cases outcome with
    | error f => exact congrArg (· ++ []) denial_not_change
    | ok v =>
      simp only [entries, List.filter_cons_of_pos (hevent o v)]
      rfl
  | _ => rfl

/-- The entries of changes that jobs have or are due are those of what they have carried out. -/
theorem changes_perm (kind : String) (jobs : List Job) :
    ((jobs.flatMap (Job.entries kind)).filter Entry.isChange ++ jobs.filterMap (Job.due? kind)).Perm
      ((jobs.filterMap Job.carriedOut?).map fun x => ⟨x.1.caller, x.1.event kind x.2⟩) := by
  rw [List.filter_flatMap, List.filterMap_eq_flatMap_toList, List.map_filterMap,
    List.filterMap_eq_flatMap_toList]
  refine (List.flatMap_append_perm jobs _ _).trans ?_
  rw [List.flatMap_congr fun job _ => Job.entries_isChange kind job]

/-- What is found at the places of a list is found in the list. -/
theorem filterMap_range {α β : Type} (g : α → Option β) (l : List α) :
    (List.range l.length).filterMap (fun n => l[n]?.bind g) = l.filterMap g := by
  induction l with
  | nil => rfl
  | cons a l ih =>
    rw [List.length_cons, List.range_succ_eq_map, List.filterMap_cons, List.filterMap_map,
      List.filterMap_cons]
    have htail : (List.range l.length).filterMap ((fun n => (a :: l)[n]?.bind g) ∘ Nat.succ) =
        l.filterMap g := ih
    rw [htail]
    rfl

namespace Traffic

variable {t u : Traffic} {cs : List Commit} {events : List Event} {e : Stored}

/-- What the jobs have carried out are the changes of the history. -/
theorem Recorded.carried_perm (h : Recorded t u cs) :
    (u.jobs.filterMap Job.carriedOut?).Perm (cs.map fun c => (c.order, c.result)) := by
  have hsame : (cs.map (·.job)).Perm
      ((List.range u.jobs.length).filter fun n => (u.carriedOut? n).isSome) := by
    refine (List.perm_ext_iff_of_nodup h.once (List.nodup_range.filter _)).mpr fun n => ?_
    rw [List.mem_map, List.mem_filter, List.mem_range]
    constructor
    · rintro ⟨c, hc, rfl⟩
      have hdone := (h.carriedOut c.job c.order c.result).mpr ⟨c, hc, rfl, rfl, rfl⟩
      obtain ⟨job, hjob, -⟩ := Option.bind_eq_some_iff.mp hdone
      exact ⟨(List.getElem?_eq_some_iff.mp hjob).1, by rw [hdone]; rfl⟩
    · rintro ⟨-, hdone⟩
      obtain ⟨⟨o, v⟩, hdone⟩ := Option.isSome_iff_exists.mp hdone
      obtain ⟨c, hc, hjob, -⟩ := (h.carriedOut n o v).mp hdone
      exact ⟨c, hc, hjob⟩
  have hjobs : ((List.range u.jobs.length).filter fun n => (u.carriedOut? n).isSome).filterMap
      u.carriedOut? = u.jobs.filterMap Job.carriedOut? := by
    rw [List.filterMap_filter, ← filterMap_range Job.carriedOut? u.jobs]
    refine List.filterMap_congr fun n _ => ?_
    unfold carriedOut?
    cases u.jobs[n]?.bind Job.carriedOut? <;> rfl
  have hcommits : (cs.map (·.job)).filterMap u.carriedOut? = cs.map fun c => (c.order, c.result) := by
    rw [List.filterMap_map, ← List.filterMap_eq_map]
    refine List.filterMap_congr fun c hc => ?_
    exact (h.carriedOut c.job c.order c.result).mpr ⟨c, hc, rfl, rfl, rfl⟩
  rw [← hjobs, ← hcommits]
  exact (hsame.filterMap _).symm

/-- The entries of changes, with those that are due, are those of the history. -/
theorem Recorded.entries_perm (h : Recorded t u cs)
    (htrail : u.ledger.trail.Perm (u.jobs.flatMap (Job.entries u.kind))) :
    (u.ledger.trail.filter Entry.isChange ++ u.jobs.filterMap (Job.due? u.kind)).Perm
      (cs.map (Commit.entry u.kind)) := by
  refine ((htrail.filter _).append_right _).trans ((changes_perm u.kind u.jobs).trans ?_)
  refine (h.carried_perm.map _).trans ?_
  rw [List.map_map]
  exact .refl _

end Traffic

/-- The versions that the entries of some changes tell are those of the updates among them. -/
theorem versionsOf_entries (kind id : String) (cs : List Commit) :
    versionsOf id (cs.map (Commit.entry kind)) =
      (updatesOf id cs).map (·.result.revision.version) := by
  induction cs with
  | nil => rfl
  | cons c cs ih =>
    unfold versionsOf updatesOf at ih ⊢
    rw [List.map_cons, List.filterMap_cons, ih, List.filter_cons]
    cases hchange : c.order.change with
    | delete => simp [Commit.entry, Order.event, Entry.updateOf?, Commit.isUpdateOf, hchange]
    | update p =>
      by_cases hid : c.order.id = id <;>
        simp [Commit.entry, Order.event, Entry.updateOf?, Commit.isUpdateOf, hchange, hid]

/-- The updates of an inlet give the versions that follow on the first one, without a gap. -/
theorem Lineage.versions {e : Stored} {cs : List Commit} {s : Store} (h : Lineage id e cs s) :
    (updatesOf id cs).map (·.result.revision.version) =
      (List.range' (e.version + 1) (updatesOf id cs).length).map some := by
  refine List.ext_getElem? fun k => ?_
  rw [List.getElem?_map, List.getElem?_map]
  by_cases hk : k < (updatesOf id cs).length
  · have hc := List.getElem?_eq_getElem hk
    rw [hc, List.getElem?_range' hk, Option.map_some, Option.map_some, (h.updated k _ hc).1]
    congr 2
    omega
  · have hlong := Nat.not_lt.mp hk
    rw [List.getElem?_eq_none hlong, List.getElem?_eq_none (by rwa [List.length_range'])]
    rfl

/-- Whose entry tells of a removal of an inlet is one. -/
theorem Commit.delete_of_isRemovalOf {c : Commit} (h : (c.entry kind).isRemovalOf id = true) :
    c.order.id = id ∧ c.order.change = .delete := by
  simp only [Commit.entry, Order.event, Entry.isRemovalOf] at h
  cases hchange : c.order.change with
  | update p =>
    rw [hchange] at h
    cases h
  | delete =>
    rw [hchange] at h
    exact ⟨of_decide_eq_true h, rfl⟩

/-- A chain of lawful changes removes an inlet once at most. -/
theorem Chain.removals {policy : Policy} {s s' : Store} {cs : List Commit} (h : Chain s cs s')
    (hlawful : ∀ c ∈ cs, c.Lawful policy) :
    (removalsOf id (cs.map (Commit.entry kind))).length ≤ 1 := by
  unfold removalsOf
  rw [List.filter_map, List.length_map]
  rcases hfilter : cs.filter (Entry.isRemovalOf id ∘ Commit.entry kind) with _ | ⟨c, _ | ⟨d, rest⟩⟩
  · exact Nat.zero_le 1
  · exact Nat.le_refl 1
  · obtain ⟨before, after, rfl, -, hc, hlater⟩ := List.filter_eq_cons_iff.mp hfilter
    obtain ⟨hcid, hcdelete⟩ := Commit.delete_of_isRemovalOf hc
    have hd : d ∈ after.filter (Entry.isRemovalOf id ∘ Commit.entry kind) := by
      rw [hlater]
      exact List.mem_cons_self
    obtain ⟨hdmem, hdremoval⟩ := List.mem_filter.mp hd
    have hdid := (Commit.delete_of_isRemovalOf hdremoval).1
    cases hfind : s.find? id with
    | none =>
      have hothers := (h.absent hlawful hfind).1
      exact absurd hcid (hothers c (List.mem_append_right _ List.mem_cons_self))
    | some e =>
      have hremoved := ((h.lineage hlawful hfind).removed before c after rfl hcid hcdelete).2
      exact absurd hdid (hremoved d hdmem)

/-! ## Every course -/

namespace Traffic

variable {t : Traffic} {events : List Event}

/-- What the trail of a node has of the requests that it was asked and of the changes that it has made
since it had its first store. -/
structure Exact (kind : String) (asked : List Inquiry) (s : Store) (cs : List Commit) (t : Traffic) :
    Prop where
  /-- It has what there is to tell of each request whose outcome it knows of, and nothing else. -/
  told : t.ledger.trail.Perm
    ((asked.zip t.jobs).flatMap fun x => x.2.settled?.elim [] (x.1.told kind))
  /-- Its entries of changes, with those that are due, are those of the changes. -/
  changes : (t.ledger.trail.filter Entry.isChange ++ t.jobs.filterMap (Job.due? kind)).Perm
    (cs.map (Commit.entry kind))
  /-- The versions that it tells of an inlet, with those that are due, follow on the first one without
  a gap, each once, as many as there are updates, as long as they are numbers of 64 bits. -/
  versions : ∀ (id : String) (e : Stored), s.find? id = some e →
    e.version + (updatesOf id cs).length ≤ Decimal.word64 →
      (versionsOf id (t.ledger.trail ++ t.jobs.filterMap (Job.due? kind))).Perm
        ((List.range' (e.version + 1) (updatesOf id cs).length).map some)
  /-- It tells once at most that an inlet was removed. -/
  removals : ∀ id : String, (removalsOf id t.ledger.trail).length ≤ 1
  /-- When every request has come to its end, it has what there is to tell of each answer, and nothing
  else; -/
  answers : (∀ job ∈ t.jobs, job.isOver = true) → t.ledger.trail.Perm
    ((asked.zip t.jobs).flatMap fun x => x.2.outcome?.elim [] (x.1.told kind))
  /-- and no version is missing. -/
  complete : (∀ job ∈ t.jobs, job.isOver = true) →
    ∀ (id : String) (e : Stored), s.find? id = some e →
      e.version + (updatesOf id cs).length ≤ Decimal.word64 → (versionsOf id t.ledger.trail).Perm
        ((List.range' (e.version + 1) (updatesOf id cs).length).map some)

/-- The trail of a node is exact if it has what it has of the jobs. -/
theorem Recorded.exact {s : Traffic} {cs : List Commit} {asked : List Inquiry}
    (h : Recorded s t cs) (hconcerns : List.Forall₂ (Job.Concerns t.kind) asked t.jobs)
    (htrail : t.ledger.trail.Perm (t.jobs.flatMap (Job.entries t.kind))) :
    Exact t.kind asked s.store cs t := by
  have hentries := h.entries_perm htrail
  have htold := htrail
  rw [flatMap_entries hconcerns] at htold
  have hversions : ∀ (id : String) (e : Stored), s.store.find? id = some e →
      (versionsOf id (t.ledger.trail ++ t.jobs.filterMap (Job.due? t.kind))).Perm
        ((List.range' (e.version + 1) (updatesOf id cs).length).map some) := by
    intro id e he
    have hall : versionsOf id (t.ledger.trail ++ t.jobs.filterMap (Job.due? t.kind)) =
        versionsOf id (t.ledger.trail.filter Entry.isChange ++ t.jobs.filterMap (Job.due? t.kind)) := by
      show List.filterMap _ _ = List.filterMap _ _
      rw [List.filterMap_append, List.filterMap_append]
      exact congrArg (· ++ _) (versionsOf_filter_isChange id t.ledger.trail).symm
    rw [hall, ← (h.chain.lineage h.lawful he).versions, ← versionsOf_entries t.kind]
    exact hentries.filterMap (Entry.updateOf? id)
  have hover : (∀ job ∈ t.jobs, job.isOver = true) → t.jobs.filterMap (Job.due? t.kind) = [] :=
    fun hover => List.filterMap_eq_nil_iff.mpr fun job hjob => Job.due?_of_isOver (hover job hjob)
  refine ⟨htold, hentries, fun id e he _ => hversions id e he, ?_, ?_, ?_⟩
  · intro id
    have hlength := (hentries.filter (Entry.isRemovalOf id)).length_eq
    have hatmost : (removalsOf id (cs.map (Commit.entry t.kind))).length ≤ 1 :=
      h.chain.removals h.lawful
    rw [List.filter_append, List.length_append] at hlength
    rw [← removalsOf_filter_isChange]
    unfold removalsOf at hatmost ⊢
    omega
  · intro hrest
    rw [← flatMap_settled hrest]
    exact htold
  · intro hrest id e he _
    have hall := hversions id e he
    rwa [hover hrest, List.append_nil] at hall

/-- **The trail is exact.** Wherever a course of events leads a node, its trail has one entry for each
change that was answered with success, with the caller, the id and the version that the update gave or
whether the removal claimed none; one for each denial, with the caller, the id and the reason; and no
other. So the versions that it tells of an inlet follow on the first one without a gap, each once, as
long as they are numbers of 64 bits, and it tells of one removal at most. -/
theorem trail_is_exact {kind : String} {policy : Policy} {patience : Duration}
    {membership : Membership} {store : Store} {fresh : Nat}
    (h : (start kind policy patience membership store fresh).run? events = some t) :
    Exact kind (requests events) store
      ((start kind policy patience membership store fresh).commits events) t := by
  have hkind : t.kind = kind := run?_kind h
  have hconcerns : List.Forall₂ (Job.Concerns t.kind) (requests events) t.jobs := by
    rw [hkind]
    exact run?_concerns Orderly.start rfl h
  have hexact :=
    (recorded Orderly.start rfl h).exact hconcerns (trail_perm Orderly.start rfl rfl h)
  rwa [hkind] at hexact

/-- A node of its own with one inlet, which one caller may use. -/
def guarded : Traffic :=
  start "input port" [⟨"a", "*", [.read, .write]⟩] (.ofSeconds 1) ⟨.standalone, none⟩
    ⟨[("p1", ⟨⟨"p1", "in", "", .stopped, 1⟩, 1⟩)]⟩ 0

/-- The one who may use the inlet updates it and removes it; somebody else is denied a look at it
before the update is on record. -/
def watched : List Event :=
  [.request "a" "p1" (.update (some ⟨some ⟨some 1, none⟩, some ⟨some "p1", some "x", none, none, none⟩⟩)),
    .act 0 .go, .locks (.ask 0 1), .act 0 .go, .act 0 .go, .act 0 .go, .act 0 .go, .act 0 .go,
    .act 0 .go, .request "b" "p1" .get, .act 1 .go, .act 0 .go,
    .request "a" "p1" (.delete none none), .act 2 .go, .locks (.ask 0 3), .act 2 .go, .act 2 .go,
    .act 2 .go, .act 2 .go, .act 2 .go, .act 2 .go, .act 2 .go]

/-- All that happened has an entry. -/
theorem trail_is_exact_watched :
    ∃ t, guarded.run? watched = some t ∧ (∀ job ∈ t.jobs, job.isOver = true) ∧
      t.ledger.trail = [⟨"b", .authorizationDenied "p1" "b may not read /input-ports/p1"⟩,
        ⟨"a", .resourceUpdated "input port" "p1" (some 2)⟩,
        ⟨"a", .resourceDeleted "input port" "p1" true⟩] ∧
      Exact "input port" (requests watched) guarded.store (guarded.commits watched) t := by
  have hcourse : (guarded.run? watched).map (fun t => (t.jobs.all Job.isOver, t.ledger.trail)) =
      some (true, [⟨"b", .authorizationDenied "p1" "b may not read /input-ports/p1"⟩,
        ⟨"a", .resourceUpdated "input port" "p1" (some 2)⟩,
        ⟨"a", .resourceDeleted "input port" "p1" true⟩]) := by decide +kernel
  obtain ⟨t, ht, hend⟩ := Option.map_eq_some_iff.mp hcourse
  obtain ⟨hover, htrail⟩ := Prod.mk.inj hend
  exact ⟨t, ht, List.all_eq_true.mp hover, htrail, trail_is_exact ht⟩

end Traffic

end InletRegistry.Registry
