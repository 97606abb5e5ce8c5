import InletRegistry.Node.Basic

/-!
# Nodes on a virtual clock

A fleet is some nodes, the network between them and a clock that stands still while anything can
run. One who drives it sends requests, some of them in the background, holds locks by hand, and
lets time pass; when the driver has to wait, the clock jumps to the next deadline.

`settle` lets everything run that can: the request or the hand to which a lock has been handed goes
on, and those whose deadline has come give up.
-/

namespace InletRegistry.Fleet

open InletRegistry.Http InletRegistry.Routing InletRegistry.Registry

/-- A claim on a lock of one of the nodes. -/
structure Place where
  node : Nat
  ticket : Nat
  deriving DecidableEq, Repr

/-- A request that waits for a lock. -/
structure Pending where
  place : Place
  visit : Visit
  /-- Its name, if it runs in the background. -/
  name : Option String

/-- What the one who drives the fleet waits for. -/
inductive Answer where
  | response (r : Response)
  /-- A lock held by hand, or why it is not. -/
  | held (result : Except Failure Unit)

end Fleet

open Fleet Http Routing Registry

/-- Nodes with a network between them. -/
structure Fleet (σ : Type) where
  nodes : List Node
  network : σ
  /-- How the requests of a node, meant by its number, go over the network. -/
  transport : Nat → Transport σ
  /-- The clock. -/
  now : Nat
  pending : List Pending
  /-- The locks held by hand, by the names of their slots. -/
  guards : List (String × Place)
  /-- The locks wanted by hand, by the names of their slots. -/
  wanted : List (String × Place)
  /-- The responses to requests in the background, by name. -/
  finished : List (String × Response)
  /-- What the one who drives the fleet waited for. -/
  answer : Option Answer

namespace Fleet

variable {σ : Type}

def start (nodes : List Node) (network : σ) (transport : Nat → Transport σ) (now : Nat) :
    Fleet σ :=
  ⟨nodes, network, transport, now, [], [], [], [], none⟩

/-- The fleet with another node in the place of one. -/
def setNode (f : Fleet σ) (i : Nat) (n : Node) : Fleet σ := { f with nodes := f.nodes.set i n }

/-- The fleet in which a node's locks have changed. -/
def onLocks (f : Fleet σ) (i : Nat) (change : LockTable → LockTable) : Fleet σ :=
  match f.nodes[i]? with
  | some n => f.setNode i { n with service := { n.service with locks := change n.service.locks } }
  | none => f

/-- Puts a lock into a slot and releases the one that was there. -/
def putGuard (f : Fleet σ) (slot : String) (p : Place) : Fleet σ :=
  let f := match f.guards.lookup slot with
    | some old => f.onLocks old.node (·.release old.ticket)
    | none => f
  { f with guards := (slot, p) :: f.guards.filter (·.1 ≠ slot) }

/-- Gives a response to the one who sent the request. -/
def deliver (f : Fleet σ) (name : Option String) (r : Response) : Fleet σ :=
  match name with
  | none => { f with answer := some (.response r) }
  | some name => { f with finished := (name, r) :: f.finished.filter (·.1 ≠ name) }

def conclude (f : Fleet σ) (p : Place) (n : Node) (outcome : Option Outcome) : Fleet σ :=
  match outcome, f.pending.find? (·.place = p) with
  | some outcome, some w =>
    { f with pending := f.pending.filter (·.place ≠ p) }.deliver w.name
      (w.visit.conclude (n.respond outcome))
  | _, _ => f

/-- The claim to which a lock has been handed goes on. -/
def resume (f : Fleet σ) (p : Place) (n : Node) : Fleet σ :=
  let (outcome, n) := n.proceed (·.resume p.ticket)
  let f := f.setNode p.node n
  match f.wanted.find? (·.2 = p) with
  | some (slot, _) =>
    { f.putGuard slot p with
      wanted := f.wanted.filter (·.2 ≠ p)
      answer := some (.held (.ok ())) }
  | none => f.conclude p n outcome

/-- The claim whose deadline has come gives up. -/
def expire (f : Fleet σ) (p : Place) (n : Node) (c : Locks.Claim) : Fleet σ :=
  let (outcome, n) := n.proceed (·.expire p.ticket)
  let f := f.setNode p.node n
  match f.wanted.find? (·.2 = p) with
  | some _ =>
    { f with
      wanted := f.wanted.filter (·.2 ≠ p)
      answer := some (.held (.error (LockTable.busy c.id c.patience))) }
  | none => f.conclude p n outcome

/-- The first node in which a claim can be found, with that claim. -/
def firstClaim? (f : Fleet σ) (find : LockTable → Option Locks.Claim) :
    Option (Nat × Node × Locks.Claim) :=
  f.nodes.zipIdx.findSome? fun (n, i) => (find n.service.locks).map fun c => (i, n, c)

def runOne? (f : Fleet σ) : Option (Fleet σ) :=
  match f.firstClaim? LockTable.handed? with
  | some (i, n, c) => some (f.resume ⟨i, c.ticket⟩ n)
  | none =>
    match f.firstClaim? (LockTable.overdue? · f.now) with
    | some (i, n, c) => some (f.expire ⟨i, c.ticket⟩ n c)
    | none => none

def claims (f : Fleet σ) : Nat :=
  f.nodes.foldl (fun sum n => sum + n.service.locks.claims.length) 0

/-- Things run until nothing can; every run brings a claim on, so there are at most two for each. -/
def settleFor : Nat → Fleet σ → Fleet σ
  | 0, f => f
  | k + 1, f =>
    match f.runOne? with
    | some f => settleFor k f
    | none => f

/-- Things run until nothing can. -/
def settle (f : Fleet σ) : Fleet σ := settleFor (2 * f.claims + 1) f

def nextDeadline? (f : Fleet σ) : Option Nat :=
  (f.nodes.filterMap (·.service.locks.nextDeadline?)).min?

/-- The clock goes on to one deadline after another until a goal is reached. -/
def awaitFor (goal : Fleet σ → Bool) : Nat → Fleet σ → Fleet σ
  | 0, f => f
  | k + 1, f =>
    if goal f then f
    else match f.nextDeadline? with
      | some deadline => awaitFor goal k { f with now := max f.now deadline }.settle
      | none => f

def await (f : Fleet σ) (goal : Fleet σ → Bool) : Fleet σ := awaitFor goal (f.claims + 1) f

/-! ## Steps -/

/-- What is asked of a fleet; a node is meant by its number. -/
inductive Step where
  | request (node : Nat) (r : Request)
  | spawn (node : Nat) (name : String) (r : Request)
  /-- Wait for the response to a request in the background. -/
  | join (name : String)
  | store (node : Nat) (inlet : Inlet) (version : Nat)
  | peek (node : Nat) (id : String)
  | becomeCoordinator (node : Nat)
  | stepDown (node : Nat) (url : Option String)
  | state (node : Nat)
  | hold (node : Nat) (id slot : String)
  | release (slot : String)
  | advance (milliseconds : Nat)

/-- What a step gives back. -/
inductive Reply where
  | nothing
  | response (r : Response)
  /-- An inlet, or that there is none. -/
  | inlet (o : Outcome)
  | held (result : Except Failure Unit)
  | released (was : Bool)
  | standing (m : Cluster.Membership) (inlets : Nat)

def handPatience : Time.Duration := .ofSeconds 1

def send (f : Fleet σ) (i : Nat) (name : Option String) (r : Request) : Fleet σ :=
  match f.nodes[i]? with
  | none => f
  | some n =>
    match n.receive (f.transport i) f.now r f.network with
    | (_, .answered response, n, network) =>
      ({ f with network }.setNode i n).deliver name response
    | (visit, .waiting ticket, n, network) =>
      let f := { f with network }.setNode i n
      { f with pending := f.pending ++ [⟨⟨i, ticket⟩, visit, name⟩] }

def reach (f : Fleet σ) (i : Nat) (id slot : String) : Fleet σ :=
  match f.nodes[i]? with
  | none => f
  | some n =>
    let (ticket, locks) := n.service.locks.acquire f.now id handPatience
    let f := f.onLocks i fun _ => locks
    if locks.holds ticket then
      { f.putGuard slot ⟨i, ticket⟩ with answer := some (.held (.ok ())) }
    else { f with wanted := f.wanted ++ [(slot, ⟨i, ticket⟩)] }

def replyOf (f : Fleet σ) : Reply :=
  match f.answer with
  | some (.response r) => .response r
  | some (.held result) => .held result
  | none => .nothing

def change (f : Fleet σ) (i : Nat) (g : Node → Node) : Fleet σ :=
  match f.nodes[i]? with
  | some n => f.setNode i (g n)
  | none => f

def storeInlet (inlet : Inlet) (version : Nat) (n : Node) : Node :=
  let ledger := n.service.ledger
  { n with service := { n.service with
      ledger := { ledger with store := ledger.store.insert inlet version } } }

def take (f : Fleet σ) (step : Step) : Reply × Fleet σ :=
  let f := { f with answer := none }
  match step with
  | .request i r =>
    let f := (f.send i none r).settle.await (·.answer.isSome)
    (f.replyOf, f)
  | .spawn i name r => (.nothing, (f.send i (some name) r).settle)
  | .join name =>
    let f := f.settle.await fun f => (f.finished.lookup name).isSome
    match f.finished.lookup name with
    | some r => (.response r, { f with finished := f.finished.filter (·.1 ≠ name) })
    | none => (.nothing, f)
  | .store i inlet version => (.nothing, (f.change i (storeInlet inlet version)).settle)
  | .peek i id =>
    match f.nodes[i]? with
    | some n => (.inlet (n.service.ledger.store.get id), f.settle)
    | none => (.nothing, f.settle)
  | .becomeCoordinator i => (.nothing, (f.change i Node.becomeCoordinator).settle)
  | .stepDown i url => (.nothing, (f.change i (·.stepDown url)).settle)
  | .state i =>
    match f.nodes[i]? with
    | some n => (.standing n.membership n.service.ledger.store.size, f.settle)
    | none => (.nothing, f.settle)
  | .hold i id slot =>
    let f := (f.reach i id slot).settle.await (·.answer.isSome)
    (f.replyOf, f)
  | .release slot =>
    match f.guards.lookup slot with
    | some p =>
      (.released true, { f.onLocks p.node (·.release p.ticket) with
        guards := f.guards.filter (·.1 ≠ slot) }.settle)
    | none => (.released false, f.settle)
  | .advance milliseconds => (.nothing, { f with now := f.now + milliseconds }.settle)

end Fleet

end InletRegistry
