import InletRegistry.Config.Basic
import InletRegistry.Http.Route
import InletRegistry.Registry.Operation
import InletRegistry.Routing.Dispatch

/-!
# Nodes

A node is a service of inlets with a place in a cluster, as clients see it over HTTP. Every request
gets an identifier, which its response carries back. The caller is told apart before anything else,
then the path and the method are looked at, then what the request says, and only then is it decided
where the request is carried out. What a node carries out itself, or fails to, it signs with its
name.

`receive` takes a request to the point where it is answered or waits for a lock; `visit.conclude`
is the last touch to every response; `serve` is the whole for a node on which nobody else acts.

Instants are milliseconds since the start of 1970.
-/

namespace InletRegistry

open InletRegistry.Text InletRegistry.Http InletRegistry.Routing InletRegistry.Access
open InletRegistry.Cluster InletRegistry.Registry

def version : String := "0.1.0"

/-- The header that says which node carried a request out. -/
def nodeHeader : String := "x-flowcoord-node"

def requestIdHeader : String := "x-request-id"

/-- A node. -/
structure Node where
  nodeId : String
  baseUrl : String
  /-- How it tells callers apart. -/
  auth : AuthSettings
  membership : Membership
  service : Service

/-- What is remembered of a request until it is answered. -/
structure Visit where
  method : String
  requestId : List UInt8
  /-- The methods to list, if the route does not serve this one. -/
  allowed : Option String
  deriving DecidableEq, Repr

/-- The last touch to a response: its length, the methods that the route serves, no body where only
the head was asked for, and the identifier of the request. -/
def Visit.conclude (v : Visit) (r : Response) : Response :=
  let r := if r.headers.has "content-length" then r
    else r.withHeader "content-length" (headerValue (Decimal.text r.body.length))
  let r := match v.allowed with
    | some methods => r.withHeader "allow" (headerValue methods)
    | none => r
  let r := if v.method = "HEAD" then { r with body := [] } else r
  r.withHeader requestIdHeader v.requestId

/-- How far a request has come. -/
inductive Progress where
  | answered (r : Response)
  | waiting (ticket : Nat)

namespace Node

/-- The store of a configuration's seeds, each at version zero. -/
def seeded (seeds : List InletSeed) : Store :=
  seeds.foldl (fun s seed => s.insert seed.toInlet 0) .empty

/-- The node of a configuration; identifiers are made from a number on. -/
def ofConfig (c : Config) (fresh : Nat) : Node :=
  ⟨c.nodeId, c.baseUrl, c.auth, .ofSettings c.cluster,
    .start "input port" c.grants c.lockPatience (seeded c.inlets) fresh⟩

/-- Signs a response with the node's name, if the name can stand in a header. -/
def sign (n : Node) (r : Response) : Response :=
  match headerValue? n.nodeId with
  | some value => r.withHeader nodeHeader value
  | none => r

/-- The response to a request that failed at this node. -/
def refuse (n : Node) (f : Failure) : Response := n.sign (.ofFailure f)

def respond (n : Node) : Outcome → Response
  | .ok v => n.sign (.json 200 (Entity.ofVersioned n.baseUrl v).toJson)
  | .error f => n.refuse f

def status (n : Node) : Json :=
  .object [("clustered", .bool n.membership.isClustered),
    ("coordinator_url", Json.ofText? n.membership.coordinatorUrl),
    ("locked_resources", .natural n.service.locks.size), ("node_id", .text n.nodeId),
    ("ports", .natural n.service.ledger.store.size), ("role", .text n.membership.role.name)]

def healthy : Json := .object [("status", .text "healthy"), ("version", .text version)]

/-! ## What a request says -/

/-- Why a request is not dispatched. -/
inductive Fault where
  /-- It is turned down before the registry sees it. -/
  | rejected (r : Rejection)
  | failed (f : Failure)
  deriving DecidableEq, Repr

def faultResponse (n : Node) : Fault → Response
  | .rejected r => r.response
  | .failed f => n.refuse f

/-- The update of a body: an empty one asks for nothing, and any other must be an entity. -/
def readUpdate (body : List UInt8) : Except Fault Operation :=
  if body.length > greatestBody then .error (.rejected .longBody)
  else if body = [] then .ok (.update none)
  else match UpdateRequest.read? body with
    | some u => .ok (.update (some u))
    | none => .error (.failed (.badRequest "malformed input port entity: not an entity"))

def readRemoval (query : String) : Except Fault Operation :=
  match RemovalQuery.parse query with
  | .error r => .error (.rejected r)
  | .ok q =>
    match q.claimedVersion with
    | .error f => .error (.failed f)
    | .ok v => .ok (.delete v q.clientId)

/-- The operation that a request asks of an inlet, by its method. -/
def readOperation (r : Request) : Except Fault Operation :=
  if r.method = "PUT" then readUpdate r.body
  else if r.method = "DELETE" then readRemoval (r.target.query.getD "")
  else .ok .get

/-- The request as it is sent on: only an update has a body. -/
def outgoing (r : Request) : Request := if r.method = "PUT" then r else { r with body := [] }

/-! ## Carrying requests out -/

section Transport

variable {σ : Type}

def beside (transport : Transport σ) : Transport (Node × σ) := fun url r (n, s) =>
  let (answer, s) := transport url r s
  (answer, n, s)

def start (now : Nat) (task : Task) (n : Node) : Except Nat Outcome × Node :=
  let (result, service) := n.service.start? now task
  (result, { n with service })

/-- The response that is sent back from the coordinator, or why there is none. -/
def relayed (n : Node) : Except Failure Response → Response
  | .ok r => relay r
  | .error f => n.refuse f

/-- Dispatches an operation that a caller asks of an inlet. -/
def operate (transport : Transport σ) (now : Nat) (caller id : String) (op : Operation)
    (r : Request) (n : Node) (s : σ) : Progress × Node × σ :=
  match op.toTask n.service.kind caller id with
  | .error f => (.answered (n.refuse f), n, s)
  | .ok task =>
    let carryOut : Node × σ → Except Nat Outcome × Node × σ := fun (n, s) =>
      let (result, n) := n.start now task
      (result, n, s)
    match dispatch (beside transport) carryOut n.membership (outgoing r) (n, s) with
    | (.sentOn answer, n, s) => (.answered (n.relayed answer), n, s)
    | (.here (.ok outcome), n, s) => (.answered (n.respond outcome), n, s)
    | (.here (.error ticket), n, s) => (.waiting ticket, n, s)

/-- Reads what is asked of an inlet and dispatches it. -/
def visitInlet (transport : Transport σ) (now : Nat) (caller : String) (segment : List Char)
    (r : Request) (n : Node) (s : σ) : Progress × Node × σ :=
  match decodeId segment with
  | .error e => (.answered e.response, n, s)
  | .ok id =>
    match readOperation r with
    | .error fault => (.answered (n.faultResponse fault), n, s)
    | .ok op => n.operate transport now caller id op r s

def visitRoute (transport : Transport σ) (now : Nat) (caller : String) (r : Request) (n : Node)
    (s : σ) : Progress × Node × σ :=
  match Route.ofPath? r.target.path with
  | none => (.answered (.empty 404), n, s)
  | some route =>
    if !route.serves r.method then (.answered (.empty 405), n, s)
    else match route with
      | .health => (.answered (.json 200 healthy), n, s)
      | .clusterStatus => (.answered (.json 200 n.status), n, s)
      | .inlet segment => n.visitInlet transport now caller segment r s

/-- The identifier of a request: the first one that it brings, if that is readable and not empty,
or a fresh one. -/
def requestIdOf (n : Node) (r : Request) : List UInt8 :=
  match r.headers.first? requestIdHeader with
  | some value =>
    match headerText? value with
    | some (_ :: _) => value
    | _ => headerValue (Uuid.ofNat n.service.ledger.fresh)
  | none => headerValue (Uuid.ofNat n.service.ledger.fresh)

/-- The node with another number for the next generated identifier. -/
def skipId (n : Node) : Node :=
  let ledger := n.service.ledger
  { n with service := { n.service with ledger := { ledger with fresh := ledger.fresh + 1 } } }

/-- The methods to list for a request that its route does not serve. -/
def allowedFor (r : Request) : Option String :=
  (Route.ofPath? r.target.path).bind fun route =>
    if route.serves r.method then none else some route.allowed

def callerOf (n : Node) (now : Nat) (r : Request) : Except Failure String :=
  Access.callerOf n.auth (now / 1000) r.target.path
    ((r.headers.first? "authorization").bind headerText?)

/-- What a node remembers of a request. -/
def visitOf (n : Node) (r : Request) : Visit := ⟨r.method, n.requestIdOf r, allowedFor r⟩

/-- Takes a request to the point where it is answered or waits for a lock. -/
def receive (transport : Transport σ) (now : Nat) (r : Request) (n : Node) (s : σ) :
    Visit × Progress × Node × σ :=
  let visit := n.visitOf r
  let n := n.skipId
  let r := { r with headers := r.headers.set requestIdHeader visit.requestId }
  match n.callerOf now r with
  | .error f => (visit, .answered (visit.conclude (.ofFailure f)), n, s)
  | .ok caller =>
    match n.visitRoute transport now caller r s with
    | (.answered response, n, s) => (visit, .answered (visit.conclude response), n, s)
    | (.waiting ticket, n, s) => (visit, .waiting ticket, n, s)

/-- Lets a request that waits go on, or gives it up, by an action of the service. -/
def proceed (n : Node) (action : Service → Option Outcome × Service) : Option Outcome × Node :=
  let (outcome, service) := action n.service
  (outcome, { n with service })

/-- Serves a request while nobody else acts on the node. -/
def serve (transport : Transport σ) (now : Nat) (r : Request) (n : Node) (s : σ) :
    Response × Node × σ :=
  match n.receive transport now r s with
  | (_, .answered response, n, s) => (response, n, s)
  | (visit, .waiting ticket, n, s) =>
    let (outcome, n) := n.proceed (·.expire ticket)
    (visit.conclude (n.respond (outcome.getD (.error (.internal "no such request")))), n, s)

end Transport

/-- The entries of the audit trail, and the node without them. -/
def takeTrail (n : Node) : List Audit.Entry × Node :=
  let ledger := n.service.ledger
  (ledger.trail, { n with service := { n.service with ledger := { ledger with trail := [] } } })

/-! ## The place in the cluster -/

def becomeCoordinator (n : Node) : Node := { n with membership := n.membership.becomeCoordinator }

/-- The node follows the coordinator at an address. -/
def stepDown (n : Node) (url : Option String) : Node :=
  { n with membership := n.membership.stepDown url }

end Node

end InletRegistry
