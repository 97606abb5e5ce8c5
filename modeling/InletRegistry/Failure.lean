import InletRegistry.Json.Basic
import InletRegistry.Text.Digits

/-!
# Failures

Every way in which the registry may turn a request down, with its text and its HTTP status. A client
may retry a failure that says another client or another node was in the way.
-/

namespace InletRegistry

open InletRegistry.Text

/-- A reason for turning a request down. -/
inductive Failure where
  | io (text : String)
  | badRequest (text : String)
  | unauthenticated (text : String)
  | authorizationDenied (text : String)
  | notFound (text : String)
  /-- The resource is not in a state that allows this. -/
  | preconditionFailed (text : String)
  /-- The caller has seen another version than the stored one. -/
  | staleRevision (resourceId : String) (expected current : Nat)
  | conflict (text : String)
  /-- Another change held the resource for too long. -/
  | busy (text : String)
  /-- Nobody is known who could execute this. -/
  | noCoordinator (text : String)
  | forwarding (text : String)
  | invalidConfig (text : String)
  | timeout (text : String)
  | internal (text : String)
  deriving DecidableEq, Repr, Inhabited

namespace Failure

def message : Failure → String
  | io text => "I/O error: " ++ text
  | badRequest text => "Bad request: " ++ text
  | unauthenticated text => "Unauthenticated: " ++ text
  | authorizationDenied text => "Access denied: " ++ text
  | notFound text => "Resource not found: " ++ text
  | preconditionFailed text => "Precondition failed: " ++ text
  | staleRevision resourceId expected current =>
    "Stale revision for " ++ resourceId ++ ": client expected version " ++ Decimal.text expected ++
      ", current version is " ++ Decimal.text current
  | conflict text => "Conflict: " ++ text
  | busy text => "Resource busy: " ++ text
  | noCoordinator text => "No coordinator available: " ++ text
  | forwarding text => "Forwarding to coordinator failed: " ++ text
  | invalidConfig text => "Invalid configuration: " ++ text
  | timeout text => "Operation timeout: " ++ text
  | internal text => "Internal error: " ++ text

def status : Failure → Nat
  | badRequest _ => 400
  | unauthenticated _ => 401
  | authorizationDenied _ => 403
  | notFound _ => 404
  | preconditionFailed _ => 409
  | staleRevision _ _ _ => 409
  | conflict _ => 409
  | noCoordinator _ => 503
  | busy _ => 503
  | forwarding _ => 502
  | timeout _ => 504
  | io _ => 500
  | invalidConfig _ => 500
  | internal _ => 500

/-- Whether the client may read the resource again and retry. -/
def isRetryable : Failure → Bool
  | staleRevision _ _ _ => true
  | preconditionFailed _ => true
  | conflict _ => true
  | busy _ => true
  | timeout _ => true
  | noCoordinator _ => true
  | _ => false

/-- The body of the answer to a request that failed. -/
def body (f : Failure) : Json :=
  .object [("error", .text f.message), ("status", .natural f.status)]

end Failure

/-- What came of something can be compared where failures and values can. -/
instance decidableEqExcept {ε α : Type} [DecidableEq ε] [DecidableEq α] :
    DecidableEq (Except ε α)
  | .ok a, .ok b => decidable_of_iff (a = b) ⟨congrArg Except.ok, Except.ok.inj⟩
  | .error e, .error f => decidable_of_iff (e = f) ⟨congrArg Except.error, Except.error.inj⟩
  | .ok _, .error _ => isFalse nofun
  | .error _, .ok _ => isFalse nofun

end InletRegistry
