import InletRegistry.Proofs.Node.Location
import InletRegistry.Proofs.Registry.Answers
import InletRegistry.Proofs.Registry.Outcomes

/-!
# Updates are looked at first

What is wrong with an update on its own is found before anything else is asked: whether the node is alone,
leads or follows, what it keeps, who may do what, and which locks are held. So a malformed update comes to
the same failure everywhere, and nothing is read, locked, noted or sent for it; and a failure of that sort
never means anything else (`update_checked_first`).

`handle` is what a node does with an operation where both ways of having it carried out are left open. As
it is the same function for all of them, what it gives back without either is given back without a look at
anything.
-/

namespace InletRegistry

open InletRegistry.Http InletRegistry.Routing InletRegistry.Cluster InletRegistry.Registry

namespace Registry

variable {id : String} {body : Option UpdateRequest} {fault : UpdateFault} {tag : RevisionTag}
  {p : Proposal}

/-- The first fault of an update for an inlet. -/
inductive Malformed (id : String) : Option UpdateRequest → UpdateFault → Prop where
  | noBody : Malformed id none .noDetails
  | noComponent {revision : Option RevisionTag} : Malformed id (some ⟨revision, none⟩) .noDetails
  | noRevision {p : Proposal} : Malformed id (some ⟨none, some p⟩) .noRevision
  /-- The component has no id, or that of another inlet. -/
  | otherId {tag : RevisionTag} {p : Proposal} (hid : p.id ≠ some id) :
    Malformed id (some ⟨some tag, some p⟩) (.otherId (p.id.getD ""))
  | noVersion {tag : RevisionTag} {p : Proposal} (hid : p.id = some id) (hversion : tag.version = none) :
    Malformed id (some ⟨some tag, some p⟩) .noVersion

theorem checkUpdate_of_malformed (h : Malformed id body fault) : checkUpdate id body = .error fault := by
  cases h with
  | noBody => rfl
  | noComponent => rfl
  | noRevision => rfl
  | otherId hid => exact if_pos hid
  | noVersion hid hversion => exact (if_neg (Decidable.not_not.mpr hid)).trans (if_pos hversion)

/-- An update without a fault has all its parts, is about the inlet and claims a version. -/
theorem checkUpdate_of_parts (hid : p.id = some id) (hversion : tag.version ≠ none) :
    checkUpdate id (some ⟨some tag, some p⟩) = .ok (tag, p) :=
  (if_neg (Decidable.not_not.mpr hid)).trans (if_neg hversion)

/-- An update has a fault, or it has all its parts. -/
theorem malformed_or_parts (id : String) (body : Option UpdateRequest) :
    (∃ fault, Malformed id body fault) ∨ ∃ tag p version,
      body = some ⟨some tag, some p⟩ ∧ tag.version = some version ∧ p.id = some id := by
  match body with
  | none => exact .inl ⟨_, .noBody⟩
  | some ⟨revision, none⟩ => exact .inl ⟨_, .noComponent⟩
  | some ⟨none, some p⟩ => exact .inl ⟨_, .noRevision⟩
  | some ⟨some tag, some p⟩ =>
    by_cases hid : p.id = some id
    · cases hversion : tag.version with
      | none => exact .inl ⟨_, .noVersion hid hversion⟩
      | some version => exact .inr ⟨tag, p, version, rfl, hversion, hid⟩
    · exact .inl ⟨_, .otherId hid⟩

/-- Which updates have a fault at all. -/
theorem exists_malformed_iff : (∃ fault, Malformed id body fault) ↔
    body = none ∨ body.bind (·.component) = none ∨ body.bind (·.revision) = none ∨
      (body.bind (·.component)).bind (·.id) ≠ some id ∨
      (body.bind (·.revision)).bind (·.version) = none := by
  constructor
  · rintro ⟨fault, h⟩
    cases h with
    | noBody => exact .inl rfl
    | noComponent => exact .inr (.inl rfl)
    | noRevision => exact .inr (.inr (.inl rfl))
    | otherId hid => exact .inr (.inr (.inr (.inl hid)))
    | noVersion _ hversion => exact .inr (.inr (.inr (.inr hversion)))
  · intro h
    refine (malformed_or_parts id body).resolve_right ?_
    rintro ⟨tag, p, version, rfl, hversion, hid⟩
    rcases h with h | h | h | h | h
    · cases h
    · cases h
    · cases h
    · exact h hid
    · rw [Option.bind_some, Option.bind_some, hversion] at h
      cases h

/-! ## What comes of an order -/

namespace Service

variable {s s' : Service} {o : Order} {f : Failure} {ticket now : Nat}

/-- An order that is carried out fails by one of its checks. -/
theorem finish_turndown (h : (s.finish ticket o).1 = .error f) : Order.Turndown f := by
  cases hdone : o.carryOut s.kind s.policy s.ledger with
  | mk outcome ledger =>
    simp only [finish, hdone] at h
    subst h
    exact Order.carryOut_turndown hdone

theorem submit_turndown (h : (s.submit now o).1 = .ok (.error f)) : Order.Turndown f := by
  unfold submit at h
  simp only at h
  split at h
  · exact finish_turndown (Except.ok.inj h)
  · cases h

theorem resume_turndown (h : (s.resume ticket).1 = some (.error f)) : Order.Turndown f := by
  unfold resume at h
  simp only at h
  split at h
  · split at h
    · exact finish_turndown (Option.some.inj h)
    · cases h
  · cases h

end Service

end Registry

/-! ## Both ways left open -/

namespace Routing

variable {σ α : Type}

/-- Looks at an operation on its own, and has its task carried out here or at the coordinator. What is given
back is what became of the request, or why it never came so far. -/
def handle (transport : Transport σ) (carryOut : Task → σ → α × σ) (m : Membership)
    (kind caller id : String) (op : Operation) (r : Request) (s : σ) : Except Failure (Reply α) × σ :=
  match op.toTask kind caller id with
  | .error f => (.error f, s)
  | .ok task =>
    let (reply, s) := dispatch transport (carryOut task) m r s
    (.ok reply, s)

/-- A failure that a node gives back at once: its own, the network's, or that of what it carried out. -/
def failure? : Except Failure (Reply (Except Nat Outcome)) → Option Failure
  | .error f => some f
  | .ok (.sentOn (.error f)) => some f
  | .ok (.here (.ok (.error f))) => some f
  | _ => none

variable {transport : Transport σ} {carryOut : Task → σ → α × σ} {m : Membership} {r : Request} {s : σ}
  {kind caller id : String} {body : Option UpdateRequest} {fault : UpdateFault} {tag : RevisionTag}
  {p : Proposal} {version : Nat}

theorem handle_of_malformed (h : Malformed id body fault) :
    handle transport carryOut m kind caller id (.update body) r s =
      (.error (.badRequest (fault.message kind id)), s) := by
  simp only [handle, Operation.toTask, checkUpdate_of_malformed h, UpdateFault.toFailure]

/-- An update with all its parts comes to an order for its proposal, in the version that it claims. -/
theorem toTask_of_parts (hid : p.id = some id) (hversion : tag.version = some version) :
    (Operation.update (some ⟨some tag, some p⟩)).toTask kind caller id =
      .ok (.order ⟨caller, ⟨some version, tag.clientId.getD "", id⟩, .update p⟩) := by
  have hsome : tag.version ≠ none := by
    rw [hversion]
    exact Option.some_ne_none version
  simp only [Operation.toTask, checkUpdate_of_parts hid hsome, Revision.ofTag, hversion]

theorem handle_of_parts (hid : p.id = some id) (hversion : tag.version = some version) :
    handle transport carryOut m kind caller id (.update (some ⟨some tag, some p⟩)) r s =
      (dispatch transport (carryOut (.order ⟨caller, ⟨some version, tag.clientId.getD "", id⟩, .update p⟩))
        m r s).map .ok fun s => s := by
  simp only [handle, toTask_of_parts hid hversion]
  rfl

end Routing

namespace Node

variable {σ : Type} {n : Node} {r : Request} {now : Nat} {caller id : String} {op : Operation} {s : σ}

/-- What a node does with an operation, before it is told to the client. -/
def handled (transport : Transport σ) (now : Nat) (caller id : String) (op : Operation) (r : Request)
    (n : Node) (s : σ) : Except Failure (Reply (Except Nat Outcome)) × Node × σ :=
  handle (beside transport)
    (fun task (n, s) =>
      let (result, n) := n.start now task
      (result, n, s))
    n.membership n.service.kind caller id op (outgoing r) (n, s)

/-- How it is told. -/
def told (n : Node) : Except Failure (Reply (Except Nat Outcome)) → Progress
  | .error f => .answered (n.refuse f)
  | .ok (.sentOn answer) => .answered (n.relayed answer)
  | .ok (.here (.ok outcome)) => .answered (n.respond outcome)
  | .ok (.here (.error ticket)) => .waiting ticket

/-- A node does no more with an operation than to handle it and to tell what came of it. -/
theorem operate_eq (transport : Transport σ) :
    n.operate transport now caller id op r s =
      ((n.handled transport now caller id op r s).2.1.told (n.handled transport now caller id op r s).1,
        (n.handled transport now caller id op r s).2) := by
  unfold operate handled handle
  cases op.toTask n.service.kind caller id with
  | error f => rfl
  | ok task =>
    simp only
    rcases dispatch (beside transport) _ n.membership (outgoing r) (n, s) with
      ⟨⟨ticket | outcome⟩ | answer, n', s'⟩ <;> rfl

/-- What is sent on does not come to a bad request, unless the network says so. -/
theorem forward_ne_badRequest {transport : Transport σ}
    (htransport : ∀ url r s text, (transport url r s).1 ≠ .error (.badRequest text)) (m : Membership)
    (text : String) : (forward transport m r s).1 ≠ .error (.badRequest text) := by
  unfold forward
  cases destination m r with
  | error o =>
    cases o with
    | alreadyForwarded => exact fun h => Failure.noConfusion (Except.error.inj h)
    | unknownCoordinator => exact fun h => Failure.noConfusion (Except.error.inj h)
  | ok url => exact htransport url r s text

/-- Whatever becomes of a task, it is not a bad request. -/
theorem dispatched_ne_badRequest {transport : Transport σ}
    (htransport : ∀ url r s text, (transport url r s).1 ≠ .error (.badRequest text)) (o : Order)
    (text : String) :
    failure? (.ok (dispatch (beside transport)
      (fun (n, s) =>
        let (result, n) := n.start now (.order o)
        (result, n, s)) n.membership r (n, s)).1) ≠ some (.badRequest text) := by
  unfold dispatch
  split
  · rw [forward_beside]
    intro h
    have hne := forward_ne_badRequest (r := r) (s := s) htransport n.membership text
    cases hanswer : (forward transport n.membership r s).1 with
    | ok answer =>
      simp only [hanswer, failure?] at h
      cases h
    | error f =>
      simp only [hanswer, failure?] at h
      rw [hanswer, Option.some.inj h] at hne
      exact hne rfl
  · intro h
    simp only [start, Service.start?] at h
    cases hdone : (n.service.submit now o).1 with
    | error ticket =>
      simp only [hdone, failure?] at h
      cases h
    | ok outcome =>
      cases outcome with
      | ok v =>
        simp only [hdone, failure?] at h
        cases h
      | error f =>
        simp only [hdone, failure?] at h
        rw [Option.some.inj h] at hdone
        cases Service.submit_turndown hdone

/-- **An update is looked at before anything else.** The update has a fault if its body, its component or
its revision is missing, if its component has no id or that of another inlet, or if its revision has no
version. Then the first of these is what is given back, at every node, in every place of a cluster and for
every caller, whatever would have carried the update out or sent it on; neither is asked. Otherwise it is
dispatched: as an order about the inlet that the path names, with the version and the client of the
revision that was sent, for a proposal that is about the same inlet. And a node, which tells what comes of
this, gives back a bad request for no other reason, at once or later, if the network never does. -/
theorem update_checked_first {transport : Transport σ}
    (htransport : ∀ url r s text, (transport url r s).1 ≠ .error (.badRequest text)) (id : String)
    (body : Option UpdateRequest) :
    ((∃ fault, Malformed id body fault) ↔
      body = none ∨ body.bind (·.component) = none ∨ body.bind (·.revision) = none ∨
        (body.bind (·.component)).bind (·.id) ≠ some id ∨
        (body.bind (·.revision)).bind (·.version) = none) ∧
    (∀ fault, Malformed id body fault → ∀ (τ α : Type) (sending : Transport τ)
      (carryOut : Task → τ → α × τ) (m : Membership) (kind caller : String) (r : Request) (s : τ),
      handle sending carryOut m kind caller id (.update body) r s =
        (.error (.badRequest (fault.message kind id)), s)) ∧
    ((¬ ∃ fault, Malformed id body fault) → ∃ tag p version,
      body = some ⟨some tag, some p⟩ ∧ tag.version = some version ∧ p.id = some id ∧
      ∀ (τ α : Type) (sending : Transport τ) (carryOut : Task → τ → α × τ) (m : Membership)
        (kind caller : String) (r : Request) (s : τ),
        handle sending carryOut m kind caller id (.update body) r s =
          (dispatch sending
            (carryOut (.order ⟨caller, ⟨some version, tag.clientId.getD "", id⟩, .update p⟩))
            m r s).map .ok fun s => s) ∧
    (∀ (n : Node) (now : Nat) (caller : String) (r : Request) (s : σ),
      let done := n.handled transport now caller id (.update body) r s
      n.operate transport now caller id (.update body) r s = (done.2.1.told done.1, done.2) ∧
        ∀ text, failure? done.1 = some (.badRequest text) ↔
          ∃ fault, Malformed id body fault ∧ text = fault.message n.service.kind id) ∧
    ∀ (u : Service) (ticket : Nat) (text : String),
      (u.resume ticket).1 ≠ some (.error (.badRequest text)) ∧
        (u.expire ticket).1 ≠ some (.error (.badRequest text)) := by
  refine ⟨exists_malformed_iff, fun fault h _ _ _ _ _ _ _ _ _ => handle_of_malformed h,
    fun hnone => ?_, fun n now caller r s => ⟨operate_eq transport, fun text => ?_⟩, fun u ticket text => ⟨fun h => ?_, fun h => ?_⟩⟩
  · obtain ⟨tag, p, version, rfl, hversion, hid⟩ := (malformed_or_parts id body).resolve_left hnone
    exact ⟨tag, p, version, rfl, hversion, hid, fun _ _ _ _ _ _ _ _ _ => handle_of_parts hid hversion⟩
  · rcases malformed_or_parts id body with ⟨first, hfirst⟩ | ⟨tag, p, version, rfl, hversion, hid⟩
    · rw [handled, handle_of_malformed hfirst]
      simp only [failure?, Option.some.injEq, Failure.badRequest.injEq]
      refine ⟨fun h => ⟨first, hfirst, h.symm⟩, fun ⟨fault, hfault, h⟩ => ?_⟩
      have hsame := (checkUpdate_of_malformed hfirst).symm.trans (checkUpdate_of_malformed hfault)
      rw [Except.error.inj hsame, h]
    · rw [handled, handle_of_parts hid hversion]
      refine iff_of_false (dispatched_ne_badRequest htransport _ text) ?_
      rintro ⟨fault, hfault, -⟩
      cases hfault with
      | otherId hother => exact hother hid
      | noVersion _ hnone => rw [hnone] at hversion; cases hversion
  · cases Service.resume_turndown h
  · unfold Service.expire at h
    simp only at h
    split at h
    · cases h
    · cases h

/-- A network on which nobody can be reached fails by that alone. -/
theorem isolated_ne_badRequest (url : String) (r : Request) (s : σ) (text : String) :
    (isolated σ url r s).1 ≠ .error (.badRequest text) := by
  unfold isolated hop
  cases Net.Url.parse? (hopUrl url r) with
  | none => exact fun h => Failure.noConfusion (Except.error.inj h)
  | some target =>
    simp only
    split
    · next hfailed =>
      intro h
      split at hfailed
      · cases hfailed
      · cases hfailed
        exact Failure.noConfusion (Except.error.inj h)
    · exact fun h => Failure.noConfusion (Except.error.inj h)

/-- An update of another inlet, without a version. -/
def misdirected : UpdateRequest := ⟨some ⟨none, some "c"⟩, some ⟨some "p2", none, none, none, none⟩⟩

/-- A follower tells the first of its two faults, and sends nothing on; once both are mended, it does not
find it malformed. -/
theorem update_checked_first_misdirected :
    (member .follower).handled (isolated Unit) 0 "anonymous" "p1" (.update (some misdirected)) removal () =
        (.error (.badRequest ("the input port id (p2) in the request body does not equal the input port " ++
          "id of the requested resource (p1)")), member .follower, ()) ∧
      ∀ text, failure? ((member .follower).handled (isolated Unit) 0 "anonymous" "p1"
        (.update (some ⟨some ⟨some 0, some "c"⟩, some ⟨some "p1", none, none, none, none⟩⟩)) removal
        ()).1 ≠ some (.badRequest text) := by
  have hfault : Malformed "p1" (some misdirected) (.otherId "p2") := .otherId (by decide)
  have hmended : checkUpdate "p1"
      (some ⟨some ⟨some 0, some "c"⟩, some ⟨some "p1", none, none, none, none⟩⟩) =
        .ok (⟨some 0, some "c"⟩, ⟨some "p1", none, none, none, none⟩) := by decide
  have hnetwork := isolated_ne_badRequest (σ := Unit)
  obtain ⟨-, hstops, -⟩ := update_checked_first hnetwork "p1" (some misdirected)
  obtain ⟨-, -, -, hiff, -⟩ := update_checked_first hnetwork "p1"
    (some ⟨some ⟨some 0, some "c"⟩, some ⟨some "p1", none, none, none, none⟩⟩)
  refine ⟨hstops _ hfault _ _ _ _ _ _ _ _ _, fun text h => ?_⟩
  obtain ⟨fault, hagain, -⟩ := ((hiff _ _ _ _ _).2 text).mp h
  rw [checkUpdate_of_malformed hagain] at hmended
  cases hmended

end Node

end InletRegistry
