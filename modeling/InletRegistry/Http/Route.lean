import InletRegistry.Http.Message
import InletRegistry.Text.Digits
import InletRegistry.Text.Blank
import InletRegistry.Text.Percent
import InletRegistry.Text.Pieces

/-!
# Routes

The paths that a node serves, and what it demands of a request before anything is asked of the
registry: an id that is UTF-8 behind its escapes, a body that is not too long, and a query in which
no known field is repeated. What does not meet this is turned down in plain text, without a word
about the node.
-/

namespace InletRegistry.Http

open InletRegistry.Text

/-- A path that a node serves. -/
inductive Route where
  /-- An inlet; the id as it stands in the path. -/
  | inlet (segment : List Char)
  | clusterStatus
  | health
  deriving DecidableEq, Repr

namespace Route

def ofPath? (path : String) : Option Route :=
  if path = "/health" then some .health
  else if path = "/cluster/status" then some .clusterStatus
  else match segments path.toList with
    | [[], collection, segment] =>
      if collection = "input-ports".toList ∧ segment ≠ [] then some (.inlet segment) else none
    | _ => none

/-- The methods that a route serves, as its answer to any other method lists them. -/
def allowed : Route → String
  | inlet _ => "GET,HEAD,PUT,DELETE"
  | clusterStatus => "GET,HEAD"
  | health => "GET,HEAD"

def serves (r : Route) (method : String) : Bool :=
  method = "GET" || method = "HEAD" ||
    match r with
    | inlet _ => method = "PUT" || method = "DELETE"
    | _ => false

end Route

/-- Why a request is turned down before the registry sees it. -/
inductive Rejection where
  | undecodableId
  | longBody
  /-- A field of the query is repeated. -/
  | repeatedField (name : String)
  deriving DecidableEq, Repr

def Rejection.response : Rejection → Response
  | undecodableId => .plain 400 "Invalid URL: Invalid UTF-8 in \x60id\x60"
  | longBody => .plain 413 "Failed to buffer the request body: length limit exceeded"
  | repeatedField name =>
    .plain 400 ("Failed to deserialize query string: duplicate field \x60" ++ name ++ "\x60")

/-- The octets that the body of an update may have. -/
def greatestBody : Nat := 2097152

def decodeId (segment : List Char) : Except Rejection String :=
  match Utf8.strict? (Percent.decode segment) with
  | some cs => .ok (String.ofList cs)
  | none => .error .undecodableId

/-- The fields of the query of a removal. -/
structure RemovalQuery where
  /-- The version claimed, as it is written. -/
  version : Option String
  clientId : Option String
  deriving DecidableEq, Repr

namespace RemovalQuery

def take (q : RemovalQuery) (pair : String × String) : Except Rejection RemovalQuery :=
  if pair.1 = "version" then
    if q.version.isSome then .error (.repeatedField "version")
    else .ok { q with version := some pair.2 }
  else if pair.1 = "clientId" then
    if q.clientId.isSome then .error (.repeatedField "clientId")
    else .ok { q with clientId := some pair.2 }
  else .ok q

def takeAll (q : RemovalQuery) : List (String × String) → Except Rejection RemovalQuery
  | [] => .ok q
  | pair :: rest =>
    match q.take pair with
    | .ok q => takeAll q rest
    | .error e => .error e

def parse (query : String) : Except Rejection RemovalQuery :=
  takeAll ⟨none, none⟩ (Form.decode query)

/-- The version that a removal claims: none if the field is missing or blank, a number of 64 bits
if it is one, and else a failure. -/
def claimedVersion (q : RemovalQuery) : Except Failure (Option Nat) :=
  match q.version with
  | none => .ok none
  | some raw =>
    let digits := trimList raw.toList
    if digits = [] then .ok none
    else match Decimal.natural? Decimal.word64 digits with
      | some n => .ok (some n)
      | none =>
        .error (.badRequest ("version must be a non-negative integer, got '" ++
          String.ofList digits ++ "'"))

end RemovalQuery

end InletRegistry.Http
