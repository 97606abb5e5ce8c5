/-!
# Cluster membership

What a node knows of its cluster: its own role and, as a follower, where the coordinator is. A
node that is not clustered stays alone whatever it is told. A follower that takes over forgets the
address that it followed.
-/

namespace InletRegistry.Cluster

/-- The roles that a clustered node can be given. -/
inductive AssignedRole where
  | coordinator
  | follower
  deriving DecidableEq, Repr

namespace AssignedRole

/-- The roles by name. -/
def names : List (String × AssignedRole) := [("coordinator", .coordinator), ("follower", .follower)]

/-- The name of a role. -/
def name : AssignedRole → String
  | coordinator => "coordinator"
  | follower => "follower"

end AssignedRole

/-- How a node takes part in a cluster. -/
structure ClusterSettings where
  enabled : Bool
  /-- Its role at the start. -/
  role : AssignedRole
  /-- Where the coordinator is, for a follower. -/
  coordinatorUrl : Option String
  /-- Milliseconds that a forwarded request may take. -/
  forwardTimeout : Nat
  deriving DecidableEq, Repr

/-- The settings when nothing is said: no cluster. -/
def ClusterSettings.default : ClusterSettings := ⟨false, .coordinator, none, 10000⟩

/-- What a node is to its cluster. -/
inductive Role where
  | standalone
  | coordinator
  | follower
  deriving DecidableEq, Repr

/-- The name of a role. -/
def Role.name : Role → String
  | standalone => "standalone"
  | coordinator => "coordinator"
  | follower => "follower"

/-- How a node is told its role. -/
inductive RoleCall where
  | becomeCoordinator
  /-- To follow the coordinator at an address, which may be unknown. -/
  | stepDown (url : Option String)
  deriving DecidableEq, Repr

/-- What a node knows of its cluster. -/
structure Membership where
  role : Role
  /-- The address that it was given last. -/
  knownUrl : Option String
  deriving DecidableEq, Repr

namespace Membership

/-- The membership at the start. -/
def ofSettings (c : ClusterSettings) : Membership :=
  let role : Role := if !c.enabled then .standalone else
    match c.role with
    | .coordinator => .coordinator
    | .follower => .follower
  ⟨role, c.coordinatorUrl⟩

/-- Whether the node is part of a cluster. -/
def isClustered (m : Membership) : Bool := m.role ≠ .standalone

/-- Whether the node is the coordinator of its cluster. -/
def isCoordinator (m : Membership) : Bool := m.role = .coordinator

/-- Where the coordinator is, which only a follower knows. -/
def coordinatorUrl (m : Membership) : Option String :=
  match m.role with
  | .follower => m.knownUrl
  | _ => none

/-- Takes over as coordinator. -/
def becomeCoordinator (m : Membership) : Membership :=
  if m.role = .standalone then m else ⟨.coordinator, none⟩

/-- Follows the coordinator at an address, which may be unknown. -/
def stepDown (m : Membership) (url : Option String) : Membership :=
  if m.role = .standalone then m else ⟨.follower, url⟩

/-- What becomes of the membership when the node is told its role. -/
def heed (m : Membership) : RoleCall → Membership
  | .becomeCoordinator => m.becomeCoordinator
  | .stepDown url => m.stepDown url

/-- Whether requests have to be handed to the coordinator. -/
def mustForward (m : Membership) : Bool := m.isClustered && !m.isCoordinator

/-- A node hands requests on exactly as a follower. -/
theorem mustForward_iff {m : Membership} : m.mustForward = true ↔ m.role = .follower := by
  cases m with
  | mk role url => cases role <;> simp [mustForward, isClustered, isCoordinator]

end Membership

end InletRegistry.Cluster
