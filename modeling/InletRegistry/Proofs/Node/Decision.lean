import InletRegistry.Proofs.Node.Checked
import InletRegistry.Proofs.Registry.Decision

/-!
# Changes at the node that makes them

A node that does not send requests on carries an order out as soon as the lock of its inlet is its own:
at once if nobody has the lock, and else when the lock is handed to it. Either way the order is decided by
its conditions as they are at that moment, and changes no entry but that of its inlet
(`mutation_decided`).
-/

namespace InletRegistry

open InletRegistry.Http InletRegistry.Routing InletRegistry.Cluster InletRegistry.Registry
  InletRegistry.Text

/-- That an order for an inlet has its lock at once. -/
def Registry.Service.Obtains (s : Service) (now : Nat) (id : String) : Prop :=
  (s.locks.acquire now id s.patience).2.holds (s.locks.acquire now id s.patience).1 = true

/-- That is so exactly if nobody has it. -/
theorem Registry.Service.obtains_iff {s : Service} (h : s.locks.Sound) (now : Nat) (id : String) :
    s.Obtains now id ↔ s.locks.isOpen id = true := by
  rw [Obtains, LockTable.holds_acquire h]

namespace Node

variable {σ : Type} {n : Node} {r : Request} {now : Nat} {caller id : String} {op : Operation} {s : σ}
  {o : Order}

/-- The inlets of a node. -/
def store (n : Node) : Store := n.service.ledger.store

/-- The identifier that a client gets here if it does not say who it is. -/
def freshId (n : Node) : String := Uuid.ofNat n.service.ledger.fresh

/-- How an order is decided at a node, and what it leaves there. -/
def Decides (n : Node) (o : Order) (n' : Node) (outcome : Outcome) : Prop :=
  o.Decided n.service.policy n.freshId n.store n'.store outcome

/-- An order that has its lock at once is carried out where it is not sent on. -/
theorem operate_of_order (transport : Transport σ)
    (htask : op.toTask n.service.kind caller id = .ok (.order o)) (ho : o.Sensible)
    (hlocal : n.membership.mustForward = false) (hobtains : n.service.Obtains now o.id) :
    ∃ outcome n', n.operate transport now caller id op r s =
        (.answered (n'.respond outcome), n', s) ∧ n.Decides o n' outcome := by
  have hsubmit : n.service.submit now o = (.ok (n.service.carry o).1,
      ({ n.service with locks := (n.service.locks.acquire now o.id n.service.patience).2 }.finish
        (n.service.locks.acquire now o.id n.service.patience).1 o).2) := by
    rw [Service.submit_eq]
    exact if_pos hobtains
  refine ⟨(n.service.carry o).1, { n with service := (n.service.submit now o).2 }, ?_, ?_⟩
  · simp only [operate, htask, dispatch, hlocal, Bool.false_eq_true, ↓reduceIte, start,
      Service.start?, hsubmit]
  · rw [Decides, hsubmit]
    exact Order.carryOut_decided ho n.service.kind n.service.policy n.service.ledger

/-- So is one that has waited, when its lock is handed to it. -/
theorem proceed_of_order {ticket : Nat} (hwaits : n.service.waiting.lookup ticket = some o)
    (hhanded : (n.service.locks.resume ticket).holds ticket = true) (ho : o.Sensible) :
    ∃ outcome n', n.proceed (·.resume ticket) = (some outcome, n') ∧ n.Decides o n' outcome := by
  have hresume : n.service.resume ticket = (some (n.service.carry o).1,
      ({ n.service with locks := n.service.locks.resume ticket }.finish ticket o).2) := by
    simp only [Service.resume, hwaits, hhanded, ↓reduceIte]
    rfl
  refine ⟨(n.service.carry o).1, { n with service := (n.service.resume ticket).2 }, ?_, ?_⟩
  · simp only [proceed, hresume]
  · rw [Decides, hresume]
    exact Order.carryOut_decided ho n.service.kind n.service.policy n.service.ledger

/-- **A change is decided by its conditions.** Let a node carry requests out itself. An update that has all
its parts, is about the inlet that it was sent to and claims a version, and a removal with or without a
version, are decided as soon as the lock of the inlet is to be had, at once or when it is handed over: a
change succeeds exactly if the inlet is there, its caller may write it, the rules of an inlet's life are
respected, and a version that is claimed is the stored one; it fails by the first of these that is not so.
A success has the next version, if there is one of 64 bits, and leaves every other entry as it is; a
failure leaves all of them. -/
theorem mutation_decided (hlocal : n.membership.mustForward = false) :
    (∀ (τ : Type) (transport : Transport τ) (now : Nat) (caller id : String) (r : Request) (s : τ),
      n.service.Obtains now id →
      (∀ (tag : RevisionTag) (p : Proposal) (v : Nat), p.id = some id → tag.version = some v →
        ∃ outcome n',
          n.operate transport now caller id (.update (some ⟨some tag, some p⟩)) r s =
            (.answered (n'.respond outcome), n', s) ∧
          n.Decides ⟨caller, ⟨some v, tag.clientId.getD "", id⟩, .update p⟩ n' outcome) ∧
      ∀ (version : Option Nat) (clientId : Option String), ∃ outcome n',
        n.operate transport now caller id (.delete version clientId) r s =
          (.answered (n'.respond outcome), n', s) ∧
        n.Decides ⟨caller, ⟨version, clientId.getD "", id⟩, .delete⟩ n' outcome) ∧
    ∀ (ticket : Nat) (o : Order), n.service.waiting.lookup ticket = some o →
      (n.service.locks.resume ticket).holds ticket = true → o.Sensible →
      ∃ outcome n', n.proceed (·.resume ticket) = (some outcome, n') ∧ n.Decides o n' outcome := by
  refine ⟨fun τ transport now caller id r s hobtains => ⟨fun tag p v hid hversion => ?_,
    fun version clientId => ?_⟩, fun ticket o hwaits hhanded ho => proceed_of_order hwaits hhanded ho⟩
  · exact operate_of_order transport (toTask_of_parts hid hversion) ⟨hid, Option.some_ne_none v⟩ hlocal
      hobtains
  · have htask : (Operation.delete version clientId).toTask n.service.kind caller id =
        .ok (.order ⟨caller, ⟨version, clientId.getD "", id⟩, .delete⟩) := rfl
    exact operate_of_order transport htask trivial hlocal hobtains

/-- An update that claims a version that the inlet does not have. -/
def belated : UpdateRequest := ⟨some ⟨some 7, none⟩, some ⟨some "p1", some "out", none, none, none⟩⟩

/-- A removal that claims no version leaves no inlet; an update of version 7 is stale, and leaves the inlet
as it is. -/
theorem mutation_decided_removal :
    (∃ outcome n', (member .coordinator).operate (isolated Unit) 0 "ada" "p1" (.delete none none) removal
        () = (.answered (n'.respond outcome), n', ()) ∧ (∃ v, outcome = .ok v) ∧
          n'.store.find? "p1" = none) ∧
      ∃ outcome n', (member .coordinator).operate (isolated Unit) 0 "ada" "p1" (.update (some belated))
          removal () = (.answered (n'.respond outcome), n', ()) ∧
        outcome = .error (.staleRevision "p1" 7 0) ∧ n'.store = (member .coordinator).store := by
  have hlocal : (member .coordinator).membership.mustForward = false := by decide
  have hobtains : (member .coordinator).service.Obtains 0 "p1" := by
    unfold Registry.Service.Obtains
    decide
  have hstored : (member .coordinator).store.find? "p1" = some ⟨⟨"p1", "in", "", .stopped, 1⟩, 0⟩ := by
    decide
  have hgranted : (member .coordinator).service.policy.allows "ada" ("/input-ports/" ++ "p1") .write =
      true := by decide
  obtain ⟨hatOnce, -⟩ := mutation_decided hlocal
  obtain ⟨hupdate, hdelete⟩ := hatOnce Unit (isolated Unit) 0 "ada" "p1" removal () hobtains
  constructor
  · obtain ⟨outcome, n', hanswered, hdecided⟩ := hdelete none none
    have hmet : Order.Met (member .coordinator).service.policy ⟨"ada", ⟨none, "", "p1"⟩, .delete⟩
        ⟨⟨"p1", "in", "", .stopped, 1⟩, 0⟩ := ⟨hgranted, .delete (by decide), nofun⟩
    obtain ⟨i, entry, hleaves, -, hentry⟩ := hdecided.effect _ hstored hmet (by decide)
    cases hleaves
    exact ⟨outcome, n', hanswered, hdecided.success.mpr ⟨_, hstored, hmet⟩, hentry⟩
  · obtain ⟨outcome, n', hanswered, hdecided⟩ := hupdate ⟨some 7, none⟩
      ⟨some "p1", some "out", none, none, none⟩ 7 rfl rfl
    have hrules : (Change.update ⟨some "p1", some "out", none, none, none⟩).Respects
        ⟨"p1", "in", "", .stopped, 1⟩ :=
      .update (fun name h => Option.some.inj h ▸ by decide) nofun nofun nofun
    have hrefused := Order.Refused.stale (o := ⟨"ada", ⟨some 7, "", "p1"⟩, .update _⟩) hstored hgranted
      hrules rfl (by decide)
    have hstale : outcome = .error (.staleRevision "p1" 7 0) := (hdecided.failure _).mpr hrefused
    exact ⟨outcome, n', hanswered, hstale, hdecided.unchanged _ hstale⟩

end Node

end InletRegistry
