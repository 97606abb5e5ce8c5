import InletRegistry.Failure
import InletRegistry.Http.Header
import InletRegistry.Http.Target
import InletRegistry.Json.Printer

/-!
# Requests and responses

The messages of HTTP as far as the registry looks at them, and the responses that it makes itself:
JSON values, plain texts and empty ones.
-/

namespace InletRegistry.Http

/-- A request. -/
structure Request where
  method : String
  target : Target
  headers : Headers
  body : List UInt8
  deriving DecidableEq, Repr

/-- A response. -/
structure Response where
  status : Nat
  headers : Headers
  body : List UInt8
  deriving DecidableEq, Repr

namespace Response

def empty (status : Nat) : Response := ⟨status, [], []⟩

def json (status : Nat) (value : Json) : Response :=
  ⟨status, [("content-type", headerValue "application/json")], value.octets⟩

def plain (status : Nat) (text : String) : Response :=
  ⟨status, [("content-type", headerValue "text/plain; charset=utf-8")], Text.Utf8.encode text⟩

def ofFailure (f : Failure) : Response := json f.status f.body

def withHeader (r : Response) (name : String) (value : List UInt8) : Response :=
  { r with headers := r.headers.set name value }

end Response

end InletRegistry.Http
