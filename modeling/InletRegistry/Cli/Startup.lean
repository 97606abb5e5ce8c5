import InletRegistry.Cli.Arguments
import InletRegistry.Cli.LogFilter
import InletRegistry.Config.Load
import InletRegistry.Node.Basic

/-!
# Starting a node

From options to a configuration, and what is logged on the way: what the options say wins over the
environment and the file, and the whole is validated once more.
-/

namespace InletRegistry.Cli

open InletRegistry.Net InletRegistry.Cluster

/-- Why the program stops. -/
inductive StopCause where
  | loading (f : Config.LoadFault)
  /-- The address to listen at is none. -/
  | address
  | failed (f : Failure)
  deriving DecidableEq, Repr

def StopCause.message : StopCause → String
  | loading f => f.toFailure.message
  | address => "invalid socket address syntax"
  | failed f => f.message

def StopCause.line (c : StopCause) : String := "Error: " ++ c.message

namespace ServeOptions

/-- Where a node listens: at the address that is given, or else at the configured one. -/
def bindAddress (o : ServeOptions) (c : Config) : Except StopCause SocketAddress :=
  match o.bind with
  | none => .ok c.bindAddress
  | some s =>
    match SocketAddress.parse? s with
    | some a => .ok a
    | none => .error .address

def apply (o : ServeOptions) (c : Config) : Except StopCause Config :=
  match o.bindAddress c with
  | .error e => .error e
  | .ok bindAddress =>
    .ok { c with
      nodeId := o.nodeId.getD c.nodeId
      bindAddress
      baseUrl := o.baseUrl.getD c.baseUrl
      cluster := { c.cluster with
        enabled := o.role.isSome || c.cluster.enabled
        role := o.role.getD c.cluster.role
        coordinatorUrl := o.coordinator.or c.cluster.coordinatorUrl } }

def configure (around : Surroundings) (o : ServeOptions) : Except StopCause Config :=
  match Config.load around o.file with
  | .error f => .error (.loading f)
  | .ok c =>
    match o.apply c with
    | .error e => .error e
    | .ok c =>
      match c.sound with
      | .error f => .error (.loading f)
      | .ok c => .ok c

end ServeOptions

/-! ## What is logged -/

/-- The target of the messages about a node's course. -/
def courseTarget : List Char := "flowcoord::coordinator::server".toList

def filterVariable : String := "RUST_LOG"

/-- Whether the messages about a node's course are logged. -/
def logsCourse (around : Surroundings) (c : Config) : Bool :=
  (LogFilter.choose (around.environment.lookup filterVariable) c.logLevel).shows courseTarget
    LogLevel.info

/-- The messages about a node that is about to listen. -/
def startMessages (c : Config) : List String :=
  let n := Node.ofConfig c 0
  ["Starting flowcoord v" ++ version ++ " node: " ++ c.nodeId,
    "  HTTP API: " ++ c.bindAddress.text,
    "  Role: " ++ n.membership.role.name,
    "  Ports loaded: " ++ Text.Decimal.text n.service.ledger.store.size,
    "  Authentication: " ++ (if c.auth.enabled then "enabled" else "disabled")]

def readyMessage : String := "✓ Node ready"

def stoppedMessage : String := "Node stopped"

end InletRegistry.Cli
