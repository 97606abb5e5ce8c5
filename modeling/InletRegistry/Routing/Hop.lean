import InletRegistry.Http.Message

/-!
# The hop to the coordinator

A follower sends a request on as it came, and sends the coordinator's response back as it came. Only
the header fields that belong to a single connection stay behind, and the request is marked so that
no second follower sends it on once more.
-/

namespace InletRegistry.Routing

open InletRegistry.Http

/-- The header that marks a request that a follower has sent on. -/
def forwardedHeader : String := "x-flowcoord-forwarded"

/-- The header fields that belong to a single connection. -/
def hopByHop : List String :=
  ["connection", "host", "content-length", "transfer-encoding", "te", "trailer", "upgrade",
    "proxy-authorization"]

/-- Whether a follower has sent the request on already. -/
def isForwarded (r : Request) : Bool := r.headers.has forwardedHeader

/-- The header fields that go on to the coordinator. -/
def forwardHeaders (h : Headers) : Headers :=
  (h.without hopByHop).set forwardedHeader (headerValue "true")

/-- A request as the coordinator gets it. -/
def onward (r : Request) : Request := { r with headers := forwardHeaders r.headers }

def relay (r : Response) : Response := { r with headers := r.headers.without hopByHop }

end InletRegistry.Routing
