import InletRegistry.Cli.Startup
import InletRegistry.Http.Frame
import InletRegistry.Routing.Wire
import Std.Async

/-!
# The program

Reads the command line, issues a token or serves a node until it is interrupted. What is done is
said elsewhere; here octets go in and out.
-/

namespace InletRegistry.Cli

open Std.Async InletRegistry.Http InletRegistry.Net InletRegistry.Routing

/-! ## The surroundings -/

/-- Milliseconds since the start of 1970. -/
def clock : IO Nat := do
  return (← Std.Time.Timestamp.now).toMillisecondsSinceUnixEpoch.toInt.toNat

/-- Nanoseconds since the start of 1970. -/
def nanoseconds : IO Int := do
  return (← Std.Time.Timestamp.now).toNanosecondsSinceUnixEpoch.toInt

/-- A number from which identifiers are made. -/
def freshNumber : IO Nat := do
  return (← IO.getRandomBytes 16).toList.foldl (fun n b => n * 256 + b.toNat) 0 % Nat.pow 2 122

/-- The octets of a file, if there is one. -/
def octetsOf? (path : String) : IO (Option (List UInt8)) := do
  try return some (← IO.FS.readBinFile path).toList catch _ => return none

/-- The names and values of the environment. -/
def readEnvironment : IO (List (String × String)) := do
  return (← Std.Internal.UV.System.osEnviron).toList

/-- What a configuration is loaded from, if a file is asked for. -/
def surroundings (asked : Option String) : IO Surroundings := do
  let environment ← readEnvironment
  match asked.or (environment.lookup Config.pathVariable) with
  | none => return ⟨environment, fun _ => none⟩
  | some path =>
    let octets ← octetsOf? path
    return ⟨environment, fun p => if p = path then octets else none⟩

/-- An error of the system in words. -/
def systemText : IO.Error → String
  | .noFileOrDirectory _ _ _ => "No such file or directory (os error 2)"
  | .permissionDenied _ _ _ => "Permission denied (os error 13)"
  | .inappropriateType _ _ _ => "Is a directory (os error 21)"
  | e => e.toString

/-- Does something that may fail. -/
def attempt {α : Type} (act : IO α) : IO (Except StopCause α) := do
  try return .ok (← act) catch e => return .error (.failed (.io (systemText e)))

/-! ## Connections -/

/-- The address of a socket. -/
def socketAddress : SocketAddress → Std.Net.SocketAddress
  | .v4 octets number =>
    let o (i : Nat) : UInt8 := .ofNat (octets.getD i 0)
    .v4 ⟨.ofParts (o 0) (o 1) (o 2) (o 3), .ofNat number⟩
  | .v6 groups _ number =>
    let g (i : Nat) : UInt16 := .ofNat (groups.getD i 0)
    .v6 ⟨.ofParts (g 0) (g 1) (g 2) (g 3) (g 4) (g 5) (g 6) (g 7), .ofNat number⟩

/-- More octets of a connection; none once it is closed. -/
def more (socket : TCP.Socket.Client) : Async (Option (List UInt8)) := do
  return (← socket.recv? 65536).map ByteArray.toList

/-- Reads a body of which some octets are there; what goes beyond the greatest one is left. -/
partial def receiveBody (socket : TCP.Socket.Client) (size : BodySize) (isClosed : Bool)
    (octets : List UInt8) : Async (Option (List UInt8)) := do
  if octets.length > 2 * greatestBody then return some octets
  match size.body? isClosed octets with
  | none => return none
  | some (some body) => return some body
  | some none =>
    match ← more socket with
    | some later => receiveBody socket size false (octets ++ later)
    | none => receiveBody socket size true octets

/-- Reads a message of which some octets are there. -/
partial def receive (socket : TCP.Socket.Client) (size? : Headers → Option BodySize)
    (octets : List UInt8) : Async (Option (Head × List UInt8)) := do
  match Head.split? octets with
  | none =>
    match ← more socket with
    | some later => receive socket size? (octets ++ later)
    | none => return none
  | some (head, rest) =>
    match Head.read? head with
    | none => return none
    | some head =>
      match size? head.headers with
      | none => return none
      | some size => return (← receiveBody socket size false rest).map fun body => (head, body)

/-- Sends octets. -/
def send (socket : TCP.Socket.Client) (octets : List UInt8) : Async Unit :=
  socket.send ⟨octets.toArray⟩

/-! ## The way to the coordinator -/

/-- Exchanges a request, as it goes on, for a response at a URL. -/
def exchange (url : Url) (r : Request) : Async (Except Failure Response) := do
  let host := String.ofList (url.host.getD [])
  let number := url.number.getD 80
  let some address := (← DNS.getAddrInfo host (toString number))[0]?
    | return .error (unreachable url)
  let socket ← TCP.Socket.Client.mk
  socket.connect <| match address with
    | .v4 a => .v4 ⟨a, .ofNat number⟩
    | .v6 a => .v6 ⟨a, .ofNat number⟩
  let hostField := if url.number.isSome then host ++ ":" ++ toString number else host
  send socket ((onward r).octets hostField url.target)
  match ← receive socket (BodySize.ofResponse? r.method) [] with
  | some (head, body) =>
    match Response.ofHead? head body with
    | some response => return .ok response
    | none => return .error (unreachable url)
  | none => return .error (unreachable url)

/-- Sends a request to the coordinator and waits for so many milliseconds at most. -/
def sendOn (patience : Nat) (coordinatorUrl : String) (r : Request) :
    Async (Except Failure Response) := do
  match hop coordinatorUrl r with
  | .error f => return .error f
  | .ok url =>
    let giveUp : Async (Except Failure Response) := do
      sleep (.ofNat patience)
      return .error (late url)
    try Async.race (exchange url r) giveUp catch _ => return .error (unreachable url)

/-! ## Serving -/

/-- A node at work. -/
structure Server where
  node : Std.Mutex Node
  trail : Option IO.FS.Handle
  /-- Milliseconds that a request to the coordinator may take. -/
  patience : Nat

namespace Server

/-- Serves a request as far as the node can by itself, and writes the trail. What is to be sent to the
coordinator comes with what is remembered of the request. -/
def attend (s : Server) (r : Request) : Async (Response × Option (Visit × String × Request)) := do
  let now ← clock
  s.node.atomically do
    let n ← get
    let (response, node, errand) := n.serve Errand.transport now r ⟨none⟩
    let (entries, node) := node.takeTrail
    set node
    if let some file := s.trail then
      for entry in entries do
        file.putStr (entry.writtenAt (← nanoseconds))
      file.flush
    return (response, errand.request.map fun (url, outgoing) => (n.visitOf r, url, outgoing))

/-- Answers a request. -/
def answer (s : Server) (r : Request) : Async Response := do
  match ← s.attend r with
  | (response, none) => return response
  | (_, some (visit, url, outgoing)) =>
    let answer ← sendOn s.patience url outgoing
    s.node.atomically do
      return visit.conclude ((← get).relayed answer)

/-- Carries a connection from its request to its response. -/
def carry (s : Server) (socket : TCP.Socket.Client) : Async Unit := do
  let some (head, body) ← receive socket BodySize.ofRequest? [] | return
  let response ← match Request.ofHead? head body with
    | some r => s.answer r
    | none => pure (.empty 400)
  send socket response.octets
  socket.shutdown

/-- Accepts connections for as long as the program runs. -/
partial def accept (s : Server) (listener : TCP.Socket.Server) : Async Unit := do
  let socket ← listener.accept
  background (t := AsyncTask) (do try s.carry socket catch _ => return)
  accept s listener

end Server

/-! ## Commands -/

/-- Stops with a cause. -/
def stop (cause : StopCause) : IO UInt32 := do
  IO.eprintln cause.line
  return 1

/-- Prints messages if they are logged. -/
def log (isShown : Bool) (messages : List String) : IO Unit :=
  if isShown then messages.forM fun m => IO.println m else pure ()

/-- Opens the file of the audit trail, if there is to be one. -/
def openTrail (c : Config) : IO (Option IO.FS.Handle) :=
  match c.auditPath with
  | some path => some <$> IO.FS.Handle.mk path .append
  | none => pure none

/-- Listens at an address. -/
def listen (a : SocketAddress) : IO TCP.Socket.Server := do
  let listener ← TCP.Socket.Server.mk
  listener.bind (socketAddress a)
  listener.listen 1024
  return listener

/-- Serves a node until the program is interrupted. -/
def serve (o : ServeOptions) : IO UInt32 := do
  let around ← surroundings o.file
  match o.configure around with
  | .error cause => stop cause
  | .ok c =>
    match ← attempt (openTrail c) with
    | .error cause => stop cause
    | .ok trail =>
      let isShown := logsCourse around c
      log isShown (startMessages c)
      match ← attempt (listen c.bindAddress) with
      | .error cause => stop cause
      | .ok listener =>
        let node ← Std.Mutex.new (Node.ofConfig c (← freshNumber))
        let interrupt ← Signal.Waiter.mk .sigint false
        let interrupted ← interrupt.wait
        log isShown [readyMessage]
        let _ ← (Server.accept ⟨node, trail, c.cluster.forwardTimeout⟩ listener).toIO
        let _ ← interrupted.block
        log isShown [stoppedMessage]
        return 0

/-- Issues a token. -/
def issue (o : TokenOptions) : IO UInt32 := do
  let now ← clock
  IO.println (String.ofList (Access.Token.issue (Text.Utf8.encode o.secret) (now / 1000) o.principal
    (some o.lifetime)))
  return 0

/-- Does what the arguments ask for. -/
def run (arguments : List String) : IO UInt32 := do
  match Arguments.read (← readEnvironment) arguments with
  | .ok (.serve o) => serve o
  | .ok (.token o) => issue o
  | .error .help =>
    usage.forM fun line => IO.println line
    return 0
  | .error .version =>
    IO.println ("flowcoord " ++ version)
    return 0
  | .error .misuse =>
    usage.forM fun line => IO.eprintln line
    return 2

end InletRegistry.Cli

/-- The program. -/
def main (arguments : List String) : IO UInt32 := InletRegistry.Cli.run arguments
