import InletRegistry.Registry.Service

/-!
# Operations

What a client may ask of one inlet: to see it, to update it, to remove it. An update is looked at on
its own first: it must have a component and a revision, be about the inlet that it was sent to, and
claim a version. Nothing else is asked before that.
-/

namespace InletRegistry.Registry

/-- What is wrong with an update, whatever the state of the registry. -/
inductive UpdateFault where
  | noDetails
  | noRevision
  /-- It is about another inlet than it was sent to. -/
  | otherId (given : String)
  | noVersion
  deriving DecidableEq, Repr

/-- A fault in words. -/
def UpdateFault.message (kind id : String) : UpdateFault → String
  | noDetails => kind ++ " details must be specified"
  | noRevision => "revision must be specified"
  | otherId given =>
    "the " ++ kind ++ " id (" ++ given ++ ") in the request body does not equal the " ++ kind ++
      " id of the requested resource (" ++ id ++ ")"
  | noVersion => "revision version must be specified"

/-- A fault as a failure. -/
def UpdateFault.toFailure (kind id : String) (f : UpdateFault) : Failure :=
  .badRequest (f.message kind id)

/-- The parts of an update for an inlet, or the first fault of it. -/
def checkUpdate (id : String) (body : Option UpdateRequest) :
    Except UpdateFault (RevisionTag × Proposal) :=
  match body with
  | none => .error .noDetails
  | some request =>
    match request.component with
    | none => .error .noDetails
    | some proposal =>
      match request.revision with
      | none => .error .noRevision
      | some tag =>
        if proposal.id ≠ some id then .error (.otherId (proposal.id.getD ""))
        else if tag.version = none then .error .noVersion
        else .ok (tag, proposal)

/-- What a client asks of an inlet. -/
inductive Operation where
  | get
  | update (body : Option UpdateRequest)
  /-- To remove it, with the version and the client that are claimed. -/
  | delete (version : Option Nat) (clientId : Option String)
  deriving DecidableEq, Repr

/-- What is left to do once an operation has been looked at. -/
inductive Task where
  | view (caller id : String)
  /-- To carry out an order. -/
  | order (o : Order)
  deriving DecidableEq, Repr

/-- Who has asked for a task. -/
def Task.caller : Task → String
  | view caller _ => caller
  | order o => o.caller

/-- The task of an operation that a caller asks of an inlet. -/
def Operation.toTask (kind caller id : String) : Operation → Except Failure Task
  | get => .ok (.view caller id)
  | update body =>
    match checkUpdate id body with
    | .error f => .error (f.toFailure kind id)
    | .ok (tag, proposal) => .ok (.order ⟨caller, .ofTag tag id, .update proposal⟩)
  | delete version clientId =>
    .ok (.order ⟨caller, ⟨version, clientId.getD "", id⟩, .delete⟩)

/-- A task is its caller's. -/
theorem Operation.caller_of_toTask {kind caller id : String} {op : Operation} {task : Task}
    (h : op.toTask kind caller id = .ok task) : task.caller = caller := by
  cases op with
  | get => rw [← Except.ok.inj h]; rfl
  | update body =>
    cases hcheck : checkUpdate id body with
    | error f => simp only [toTask, hcheck, reduceCtorEq] at h
    | ok parts =>
      simp only [toTask, hcheck] at h
      rw [← Except.ok.inj h]
      rfl
  | delete version clientId => rw [← Except.ok.inj h]; rfl

namespace Service

/-- Takes a task: the outcome, or the ticket under which the task waits. -/
def start? (s : Service) (now : Nat) : Task → Except Nat Outcome × Service
  | .view caller id =>
    let (outcome, s) := s.get caller id
    (.ok outcome, s)
  | .order o => s.submit now o

/-- Takes a task while nobody else acts. -/
def perform (s : Service) (now : Nat) : Task → Outcome × Service
  | .view caller id => s.get caller id
  | .order o => s.submitAlone now o

/-- Answers an operation on a node of its own while nobody else acts. -/
def answer (s : Service) (now : Nat) (caller id : String) (op : Operation) : Outcome × Service :=
  match op.toTask s.kind caller id with
  | .error f => (.error f, s)
  | .ok task => s.perform now task

end Service

end InletRegistry.Registry
