import InletRegistry.Net.Url
import InletRegistry.Routing.Dispatch
import InletRegistry.Text.Pieces

/-!
# Sending requests on

How a request is put on the wire to the coordinator: the address of the coordinator, without
slashes at its end, is followed by the path and the query as they came, and the whole is a URL. A
request to what is no URL of HTTP is not sent at all.

`isolated` is a network on which nobody can be reached, `Script` one that answers by a script and
keeps what it was sent, and `Errand` one whose answer has to be waited for. `noting` keeps what any
network was asked for, beside the network itself.
-/

namespace InletRegistry.Routing

open InletRegistry.Http InletRegistry.Net InletRegistry.Text

/-- The text of the URL to which a request is sent on. -/
def hopUrl (coordinatorUrl : String) (r : Request) : String :=
  dropFinalSlashes coordinatorUrl ++ r.target.pathAndQuery

/-- The URL to which a request is sent on, or why it cannot be sent. -/
def hop (coordinatorUrl : String) (r : Request) : Except Failure Url :=
  match Url.parse? (hopUrl coordinatorUrl r) with
  | none => .error (.forwarding "builder error")
  | some url =>
    if url.isHttp then .ok url
    else .error (.forwarding ("builder error for url (" ++ url.text ++ ")"))

def unreachable (url : Url) : Failure :=
  .forwarding ("error sending request for url (" ++ url.text ++ ")")

/-- That the coordinator has not answered in time. -/
def late (url : Url) : Failure :=
  .timeout ("forward to coordinator: error sending request for url (" ++ url.text ++ ")")

def isolated (σ : Type) : Transport σ := fun coordinatorUrl r s =>
  match hop coordinatorUrl r with
  | .error f => (.error f, s)
  | .ok url => (.error (unreachable url), s)

/-- A request that a scripted network was sent. -/
structure Sent where
  node : Nat
  coordinatorUrl : String
  request : Request
  deriving DecidableEq, Repr

/-- A network that gives the same answer to everything. -/
structure Script where
  answer : Except Failure Response
  /-- What it was sent, in order. -/
  sent : List Sent

/-- How a node sends requests over a scripted network. -/
def Script.transport (node : Nat) : Transport Script := fun coordinatorUrl r s =>
  (s.answer, { s with sent := s.sent ++ [⟨node, coordinatorUrl, r⟩] })

/-- A network that is asked first and answers later: it keeps the request. -/
structure Errand where
  /-- The request to send, and the address of the coordinator. -/
  request : Option (String × Request)

/-- How requests are kept until they are sent. -/
def Errand.transport : Transport Errand := fun coordinatorUrl r _ =>
  (.error (.internal "not sent yet"), ⟨some (coordinatorUrl, r)⟩)

/-- A network that keeps what it is asked for, in order: the address and the request. -/
def noting {σ : Type} (transport : Transport σ) : Transport (List (String × Request) × σ) :=
  fun coordinatorUrl r (asked, s) =>
    let (answer, s) := transport coordinatorUrl r s
    (answer, asked ++ [(coordinatorUrl, r)], s)

end InletRegistry.Routing
