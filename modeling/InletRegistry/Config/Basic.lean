import InletRegistry.Access.Authentication
import InletRegistry.Access.Grant
import InletRegistry.Cluster.Membership
import InletRegistry.Inlet.Basic
import InletRegistry.Net.SocketAddress
import InletRegistry.Text.Blank
import InletRegistry.Time.Duration

/-!
# The configuration of a node

Who the node is, where it listens, how it takes part in its cluster, how it tells callers apart and
what it holds at the start. Everything has a default. `validate` refuses what no node could work
with.
-/

namespace InletRegistry

open InletRegistry.Text InletRegistry.Access InletRegistry.Cluster InletRegistry.Net

/-- An inlet that a node holds at the start. -/
structure InletSeed where
  id : String
  name : String
  comments : String
  state : RunState
  /-- How many of its tasks may work at the same time. -/
  concurrentTasks : UInt32
  deriving DecidableEq, Repr

def InletSeed.toInlet (s : InletSeed) : Inlet :=
  ⟨s.id, s.name, s.comments, s.state, s.concurrentTasks⟩

/-- The configuration of a node. -/
structure Config where
  nodeId : String
  bindAddress : SocketAddress
  baseUrl : String
  logLevel : String
  /-- Milliseconds that a change may wait for a lock. -/
  writeLockTimeout : Nat
  cluster : ClusterSettings
  /-- How it tells callers apart. -/
  auth : AuthSettings
  auditPath : Option String
  grants : Policy
  /-- What it holds at the start. -/
  inlets : List InletSeed
  deriving DecidableEq, Repr

namespace Config

def default : Config :=
  ⟨"node-1", .v4 [0, 0, 0, 0] 8080, "http://localhost:8080", "info", 5000, .default, .default, none,
    [], []⟩

/-- Why no node could work with a configuration. -/
inductive Flaw where
  | blankNodeId
  | noLockTimeout
  | noSecret
  deriving DecidableEq, Repr

def Flaw.message : Flaw → String
  | blankNodeId => "node_id must not be empty"
  | noLockTimeout => "write_lock_timeout_ms must be greater than zero"
  | noSecret => "auth.enabled requires auth.jwt_secret"

/-- The first flaw of a configuration. -/
def flaw? (c : Config) : Option Flaw :=
  if isBlankText c.nodeId then some .blankNodeId
  else if c.writeLockTimeout = 0 then some .noLockTimeout
  else if c.auth.enabled ∧ c.auth.jwtSecret = none then some .noSecret
  else none

def validate (c : Config) : Except Failure Unit :=
  match c.flaw? with
  | some f => .error (.invalidConfig f.message)
  | none => .ok ()

def lockPatience (c : Config) : Time.Duration := .ofMilliseconds c.writeLockTimeout

end Config

end InletRegistry
