import InletRegistry.Http.Message
import InletRegistry.Text.Digits

/-!
# Messages on the wire

How requests and responses of HTTP/1.1 are laid out as octets. A message is a head and a body: the
head ends with an empty line, and its fields say how long the body is. Every message asks for the
connection to be closed after it, so a connection carries one request and one response.
-/

namespace InletRegistry.Http

open InletRegistry.Text

/-! ## Heads -/

/-- The first line of a message and its header fields. -/
structure Head where
  /-- The first line. -/
  line : List Char
  headers : Headers
  deriving DecidableEq, Repr

namespace Head

/-- Splits octets at the first empty line; those in front of it are kept, latest first. -/
def splitFrom? (done : List UInt8) : List UInt8 → Option (List UInt8 × List UInt8)
  | 13 :: 10 :: 13 :: 10 :: rest => some (done.reverse, rest)
  | b :: rest => splitFrom? (b :: done) rest
  | [] => none

/-- The octets of a head and those behind it, once the head is complete. -/
def split? (octets : List UInt8) : Option (List UInt8 × List UInt8) := splitFrom? [] octets

/-- The lines of a head, without what ends them. -/
def lines (octets : List UInt8) : List (List UInt8) :=
  octets.foldr (fun b lines =>
    match b, lines with
    | 10, lines => [] :: lines
    | 13, lines => lines
    | b, l :: rest => (b :: l) :: rest
    | b, [] => [[b]]) [[]]

def isSpace (b : UInt8) : Bool := b == 0x20 || b == 9

def trimmed (value : List UInt8) : List UInt8 :=
  ((value.dropWhile isSpace).reverse.dropWhile isSpace).reverse

/-- A letter of ASCII in lower case, and any other character as it is. -/
def lower (c : Char) : Char := if 'A' ≤ c ∧ c ≤ 'Z' then Char.ofNat (c.toNat + 32) else c

def field? (line : List UInt8) : Option Header :=
  let name := line.takeWhile (· ≠ 0x3A)
  match line.dropWhile (· ≠ 0x3A), Utf8.strict? name with
  | _ :: value, some (c :: cs) => some (String.ofList ((c :: cs).map lower), trimmed value)
  | _, _ => none

def read? (octets : List UInt8) : Option Head :=
  match lines octets with
  | [] => none
  | line :: fields =>
    match Utf8.strict? line, fields.mapM field? with
    | some line, some headers => some ⟨line, headers⟩
    | _, _ => none

/-- The words of the first line. -/
def words (h : Head) : List (List Char) :=
  h.line.foldr (fun c words =>
    match c, words with
    | ' ', words => [] :: words
    | c, w :: rest => (c :: w) :: rest
    | c, [] => [[c]]) [[]]

end Head

/-! ## Bodies -/

/-- How long a body is. -/
inductive BodySize where
  | fixed (n : Nat)
  | chunked
  | untilClose
  deriving DecidableEq, Repr

/-- The size that header fields state; nothing if they make no sense. -/
def BodySize.ofHeaders? (h : Headers) : Option BodySize :=
  if h.has "transfer-encoding" then
    if h.first? "transfer-encoding" = some (headerValue "chunked") then some .chunked else none
  else match h.first? "content-length" with
    | none => some .untilClose
    | some value =>
      ((headerText? value).bind (Decimal.natural? Decimal.word64)).map BodySize.fixed

/-- The size of a request's body; nothing is announced where there is none. -/
def BodySize.ofRequest? (h : Headers) : Option BodySize :=
  (ofHeaders? h).map fun size => if size = .untilClose then .fixed 0 else size

/-- The size of the body of a response to a method. -/
def BodySize.ofResponse? (method : String) (h : Headers) : Option BodySize :=
  if method = "HEAD" then some (.fixed 0) else ofHeaders? h

/-- What has been read of chunks. -/
inductive ChunkState where
  /-- The digits of a size, as their number. -/
  | size (n : Nat)
  /-- What follows the digits, up to the end of the line. -/
  | extension (n : Nat)
  /-- Octets of a chunk that are owed, the end of its line included. -/
  | content (owed : Nat)
  /-- A line behind the last chunk, and whether it is empty so far. -/
  | trailer (isEmpty : Bool)
  | complete
  deriving DecidableEq, Repr

/-- Takes an octet of chunks, beside what has been unpacked, latest first. -/
def ChunkState.take? : ChunkState × List UInt8 → UInt8 → Option (ChunkState × List UInt8)
  | (.size n, done), b =>
    match Hex.digit? (Char.ofNat b.toNat) with
    | some d => some (.size (n * 16 + d), done)
    | none =>
      if b = 13 ∨ b = 0x3B then some (.extension n, done)
      else none
  | (.extension n, done), b =>
    if b ≠ 10 then some (.extension n, done)
    else if n = 0 then some (.trailer true, done)
    else some (.content (n + 2), done)
  | (.content owed, done), b =>
    some (if owed ≤ 1 then .size 0 else .content (owed - 1), if owed > 2 then b :: done else done)
  | (.trailer isEmpty, done), b =>
    if b = 10 then some (if isEmpty then .complete else .trailer true, done)
    else some (.trailer (isEmpty && b == 13), done)
  | (.complete, done), _ => some (.complete, done)

/-- The body of some octets, once it is complete; `isClosed` tells whether more can come, and
nothing at all comes of octets that make no sense. -/
def BodySize.body? (size : BodySize) (isClosed : Bool) (octets : List UInt8) :
    Option (Option (List UInt8)) :=
  match size with
  | .fixed n =>
    if (octets.drop (n - 1)).length > 0 ∨ n = 0 then some (some (octets.take n))
    else if isClosed then none
    else some none
  | .untilClose => some (if isClosed then some octets else none)
  | .chunked =>
    match octets.foldlM ChunkState.take? (.size 0, []) with
    | none => none
    | some (.complete, done) => some (some done.reverse)
    | some _ => if isClosed then none else some none

/-! ## Messages -/

def Request.ofHead? (h : Head) (body : List UInt8) : Option Request :=
  match h.words with
  | [method, target, 'H' :: 'T' :: 'T' :: 'P' :: '/' :: '1' :: '.' :: _] =>
    some ⟨String.ofList method, .parse (String.ofList target), h.headers, body⟩
  | _ => none

def Response.ofHead? (h : Head) (body : List UInt8) : Option Response :=
  match h.words with
  | ('H' :: 'T' :: 'T' :: 'P' :: '/' :: '1' :: '.' :: _) :: status :: _ =>
    (Decimal.plain? status).map fun n => ⟨n, h.headers, body⟩
  | _ => none

def lineEnd : List UInt8 := [13, 10]

def fieldOctets (h : Headers) : List UInt8 :=
  (h.flatMap fun (name, value) => Utf8.encode name ++ Utf8.encode ": " ++ value ++ lineEnd) ++
    lineEnd

/-- The header that announces the end of the connection. -/
def closing (h : Headers) : Headers := h.set "connection" (headerValue "close")

def Response.octets (r : Response) : List UInt8 :=
  Utf8.encode ("HTTP/1.1 " ++ Decimal.text r.status ++ " ") ++ lineEnd ++
    fieldOctets (closing r.headers) ++ r.body

/-- A request to a host as octets, with another target; it accepts everything unless it says what it
accepts. -/
def Request.octets (r : Request) (host target : String) : List UInt8 :=
  let headers := if r.headers.has "accept" then r.headers
    else r.headers.set "accept" (headerValue "*/*")
  let headers := (headers.set "host" (headerValue host)).set "content-length"
    (headerValue (Decimal.text r.body.length))
  Utf8.encode (r.method ++ " " ++ target ++ " HTTP/1.1") ++ lineEnd ++
    fieldOctets (closing headers) ++ r.body

end InletRegistry.Http
