import InletRegistry.Failure
import InletRegistry.Json.Record
import InletRegistry.Text.Pieces

/-!
# Grants

A grant gives a principal some actions on the resources that a pattern covers. A star stands for
every principal or every resource; a pattern that ends in `/*` covers what lies strictly below the
path before it; any other pattern covers the resource of that name. What no grant gives is denied.
-/

namespace InletRegistry.Access

open InletRegistry.Text

/-- What a caller may ask of a resource. -/
inductive Action where
  | read
  | write
  deriving DecidableEq, Repr

namespace Action

def names : List (String × Action) := [("read", .read), ("write", .write)]

def name : Action → String
  | read => "read"
  | write => "write"

end Action

/-- Some actions that a principal may do on some resources. -/
structure Grant where
  /-- The principal, or a star for all. -/
  principal : String
  resource : String
  actions : List Action
  deriving DecidableEq, Repr

namespace Grant

/-- What stands before a final `/*`. -/
def stem? (pattern : List Char) : Option (List Char) :=
  match pattern.reverse with
  | '*' :: '/' :: rest => some rest.reverse
  | _ => none

def covers (pattern resource : String) : Bool :=
  pattern == "*" || pattern == resource ||
    match stem? pattern.toList with
    | some stem => liesBelow stem resource.toList
    | none => false

/-- Whether a grant gives a principal an action on a resource. -/
def gives (g : Grant) (principal resource : String) (action : Action) : Bool :=
  (g.principal == "*" || g.principal == principal) && covers g.resource resource &&
    g.actions.contains action

def ofDocument? {σ : Type} [Document σ] (s : σ) : Option Grant :=
  match Document.fields? ["principal", "resource", "actions"] 3 s with
  | some [principal, resource, actions] =>
    match Document.required Document.toText? principal,
        Document.required Document.toText? resource,
        Document.required (Document.toList? (Document.toChoice? Action.names)) actions with
    | some p, some r, some a => some ⟨p, r, a⟩
    | _, _, _ => none
  | _ => none

def toJson (g : Grant) : Json :=
  .object [("principal", .text g.principal), ("resource", .text g.resource),
    ("actions", .list (g.actions.map fun a => .text a.name))]

end Grant

abbrev Policy := List Grant

namespace Policy

/-- Whether some grant gives a principal an action on a resource. -/
def allows (p : Policy) (principal resource : String) (action : Action) : Bool :=
  p.any fun g => g.gives principal resource action

/-- Why a principal may not do an action on a resource. -/
def denial (principal resource : String) (action : Action) : String :=
  principal ++ " may not " ++ action.name ++ " " ++ resource

/-- Lets a principal through to an action on a resource, or says why not. -/
def authorize (p : Policy) (principal resource : String) (action : Action) :
    Except Failure Unit :=
  if p.allows principal resource action then .ok ()
  else .error (.authorizationDenied (denial principal resource action))

/-- Lets a principal through to an action on the resource that an id is resolved to, if there is one. -/
def check (p : Policy) (resolve : String → Except Failure String) (principal id : String)
    (action : Action) : Except Failure Unit :=
  match resolve id with
  | .ok resource => p.authorize principal resource action
  | .error f => .error f

end Policy

end InletRegistry.Access
