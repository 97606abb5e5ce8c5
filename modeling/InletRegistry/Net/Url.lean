import InletRegistry.Net.SocketAddress
import InletRegistry.Text.Percent
import InletRegistry.Text.Pieces
import InletRegistry.Text.Punycode

/-!
# URLs

A URL as a client of HTTP takes it apart: a scheme, an authority and a path, or a scheme and an
opaque rest. Reading it brings it to one form: blanks around it are dropped, the scheme and the host
are in lower case and in ASCII, segments of one or two points are resolved, a backslash in the path
of a web scheme is a slash, a number that the scheme implies is left out, a user is dropped, and
octets that may not stand where they stand are escaped.

`target` is the path and the query that a request to the URL asks for.
-/

namespace InletRegistry.Net

open InletRegistry.Text

/-- A URL in its one form. -/
structure Url where
  scheme : List Char
  /-- The host, if there is one. -/
  host : Option (List Char)
  /-- The number of the service at the host, if it is not the one that the scheme implies. -/
  number : Option Nat
  /-- The path, or the opaque rest. -/
  path : List Char
  query : Option (List Char)
  fragment : Option (List Char)
  deriving DecidableEq, Repr

namespace Url

/-! ## Characters -/

def isLetter (c : Char) : Bool := ('a' ≤ c && c ≤ 'z') || ('A' ≤ c && c ≤ 'Z')

/-- A letter of ASCII in lower case, and any other character as it is. -/
def lower (c : Char) : Char := if 'A' ≤ c ∧ c ≤ 'Z' then Char.ofNat (c.toNat + 32) else c

/-- A letter of Latin-1, Greek or Cyrillic in lower case, and any other character as it is. -/
def folded (c : Char) : Char :=
  let n := c.toNat
  if (0xC0 ≤ n ∧ n ≤ 0xDE ∧ n ≠ 0xD7) ∨ (0x391 ≤ n ∧ n ≤ 0x3AB ∧ n ≠ 0x3A2) ∨
      (0x410 ≤ n ∧ n ≤ 0x42F) then Char.ofNat (n + 32)
  else if 0x400 ≤ n ∧ n ≤ 0x40F then Char.ofNat (n + 80)
  else lower c

/-- Whether an octet is printable ASCII other than some characters. -/
def isPlainBut (others : List Char) (b : UInt8) : Bool :=
  0x20 ≤ b && b < 0x7F && !others.contains (Char.ofNat b.toNat)

/-- The octets that stand in an opaque path as they are. -/
def opaqueSafe : UInt8 → Bool := isPlainBut []

/-- The octets that stand in a fragment as they are. -/
def fragmentSafe : UInt8 → Bool := isPlainBut [' ', '"', '<', '>', '\x60']

def pathSafe : UInt8 → Bool :=
  isPlainBut [' ', '"', '<', '>', '\x60', '#', '?', '\x7b', '\x7d']

/-- The octets that stand in a query as they are, for a web scheme or another one. -/
def querySafe (isWeb : Bool) : UInt8 → Bool :=
  let others := [' ', '"', '<', '>', '#']
  isPlainBut (if isWeb then '\x27' :: others else others)

/-- Whether a character may not stand in the name of a host. -/
def isForbiddenInHost (c : Char) : Bool :=
  c.toNat ≤ 0x20 || c.toNat = 0x7F ||
    ['#', '/', ':', '<', '>', '?', '@', '[', '\\', ']', '^', '|', '%'].contains c

/-! ## Hosts -/

/-- The schemes of the web, with the numbers of services that they imply. -/
def webSchemes : List (List Char × Option Nat) :=
  [("http".toList, some 80), ("https".toList, some 443), ("ws".toList, some 80),
    ("wss".toList, some 443), ("ftp".toList, some 21), ("file".toList, none)]

/-- The number that a part of an address of version 4 spells: octal behind a zero, hexadecimal
behind `0x`. -/
def part4? (cs : List Char) : Option Nat :=
  let inBase (base : Nat) (ds : List Char) : Option Nat :=
    (ds.mapM fun c => (Hex.digit? c).bind fun d => if d < base then some d else none).map
      fun ds => ds.foldl (fun n d => n * base + d) 0
  match cs with
  | [] => none
  | '0' :: 'x' :: ds => inBase 16 ds
  | '0' :: 'X' :: ds => inBase 16 ds
  | '0' :: d :: ds => inBase 8 (d :: ds)
  | ds => inBase 10 ds

/-- The parts of a name between points, without an empty one at the end. -/
def labels (cs : List Char) : List (List Char) :=
  let parts := Text.pieces '.' cs
  if parts.length > 1 ∧ parts.getLast? = some [] then parts.dropLast else parts

/-- Whether a name can only be an address of version 4. -/
def endsInNumber (cs : List Char) : Bool :=
  match (labels cs).getLast? with
  | some last => last ≠ [] && (last.all Decimal.isDigit || (part4? last).isSome)
  | none => false

/-- An address of version 4 from its parts, of which the last one fills what is left. -/
def address4? (cs : List Char) : Option (List Nat) :=
  let parts := labels cs
  if parts.length ≤ 4 then
    match parts.mapM part4? with
    | some ns =>
      let last := ns.getLast?.getD 0
      let front := ns.dropLast
      if front.all (· ≤ 255) && last < Nat.pow 256 (5 - ns.length) then
        let total := front.zipIdx.foldl (fun sum (n, i) => sum + n * Nat.pow 256 (3 - i)) last
        some [total / Nat.pow 256 3, total / Nat.pow 256 2 % 256, total / 256 % 256, total % 256]
      else none
    | none => none
  else none

def groupsText (gs : List Nat) : String :=
  let (start, length) := SocketAddress.longestRun gs
  if length > 1 then
    SocketAddress.groupsText (gs.take start) ++ "::" ++
      SocketAddress.groupsText (gs.drop (start + length))
  else SocketAddress.groupsText gs

/-- A name of a host in ASCII and in lower case; an ideographic full stop is a point. -/
def asciiName (cs : List Char) : List Char :=
  let isStop (c : Char) : Bool := [0x3002, 0xFF0E, 0xFF61].contains c.toNat
  let name := cs.map fun c => if isStop c then '.' else folded c
  List.intercalate ['.'] ((Text.pieces '.' name).map fun label =>
    if label.all (·.toNat < 128) then label else "xn--".toList ++ Punycode.encode label)

def webHost? (cs : List Char) : Option (List Char) :=
  match cs with
  | '[' :: rest =>
    if rest.getLast? = some ']' then
      (SocketAddress.address6? rest.dropLast).map fun gs => '[' :: (groupsText gs).toList ++ [']']
    else none
  | _ =>
    match Utf8.strict? (Percent.decode cs) with
    | none => none
    | some name =>
      let name := asciiName name
      if name = [] ∨ name.any isForbiddenInHost then none
      else if endsInNumber name then
        (address4? name).map fun os => (SocketAddress.octetsText os).toList
      else some name

/-- A host of another scheme, which is not looked into. -/
def otherHost? (cs : List Char) : Option (List Char) :=
  match cs with
  | '[' :: _ => webHost? cs
  | _ =>
    if cs.any fun c => isForbiddenInHost c && c ≠ '%' then none
    else some (Percent.encode opaqueSafe cs)

/-- The number of a service behind a host; an empty one is none. -/
def number? (cs : List Char) : Option (Option Nat) :=
  if cs = [] then some none else (SocketAddress.number? cs).map some

def splitHost (cs : List Char) : List Char × List Char :=
  match cs with
  | '[' :: _ =>
    let inside := cs.takeWhile (· ≠ ']')
    (inside ++ (cs.drop inside.length).take 1, (cs.drop (inside.length + 1)))
  | _ => (cs.takeWhile (· ≠ ':'), cs.dropWhile (· ≠ ':'))

/-- The host of an authority and the number of the service there; a user is dropped. -/
def authority? (isWeb : Bool) (implied : Option Nat) (cs : List Char) :
    Option (List Char × Option Nat) :=
  let cs := (cs.reverse.takeWhile (· ≠ '@')).reverse
  let (host, rest) := splitHost cs
  let host? := if isWeb then webHost? host else otherHost? host
  let number? := match rest with
    | [] => some none
    | ':' :: ds => number? ds
    | _ => none
  match host?, number? with
  | some h, some n => some (h, if n = implied then none else n)
  | _, _ => none

/-! ## Paths -/

/-- A segment in which every escape of a point is a point, in lower case. -/
def pointed : List Char → List Char
  | '%' :: '2' :: 'e' :: rest => '.' :: pointed rest
  | '%' :: '2' :: 'E' :: rest => '.' :: pointed rest
  | c :: rest => c :: pointed rest
  | [] => []

/-- Resolves segments against the ones before them, latest first: one point stays where it is, two
points go up; at the end both leave a slash. -/
def resolve : List (List Char) → List (List Char) → List (List Char)
  | done, [] => done.reverse
  | done, s :: rest =>
    if pointed s = ['.', '.'] then
      let done := done.drop 1
      resolve (if rest = [] then [] :: done else done) rest
    else if pointed s = ['.'] then resolve (if rest = [] then [] :: done else done) rest
    else resolve (s :: done) rest

def pathPieces (isWeb : Bool) (cs : List Char) : List (List Char) :=
  Text.pieces '/' (if isWeb then cs.map fun c => if c = '\\' then '/' else c else cs)

/-- A path of segments in its one form; it is never empty. -/
def pathText (isWeb : Bool) (cs : List Char) : List Char :=
  let segments := match pathPieces isWeb cs with
    | [] :: s :: rest => s :: rest
    | segments => segments
  (resolve [] segments).flatMap fun s => '/' :: Percent.encode pathSafe s

/-! ## The whole -/

/-- A text without blanks and control characters around it and without breaks and tabs in it. -/
def cleaned (cs : List Char) : List Char :=
  let isOuter (c : Char) : Bool := c.toNat ≤ 0x20
  let inner := ((cs.dropWhile isOuter).reverse.dropWhile isOuter).reverse
  inner.filter fun c => c ≠ '\t' && c ≠ '\n' && c ≠ '\r'

/-- The scheme in front of a colon, and what follows. -/
def scheme? (cs : List Char) : Option (List Char × List Char) :=
  let name := cs.takeWhile fun c => isLetter c || Decimal.isDigit c || c = '+' || c = '-' || c = '.'
  match name, cs.drop name.length with
  | c :: _, ':' :: rest => if isLetter c then some (name.map lower, rest) else none
  | _, _ => none

/-- Splits a text at the first of a character. -/
def splitFirst (mark : Char) (cs : List Char) : List Char × Option (List Char) :=
  match cs.dropWhile (· ≠ mark) with
  | [] => (cs, none)
  | _ :: rest => (cs.takeWhile (· ≠ mark), some rest)

/-- Whether a character is a slash to a web scheme. -/
def isSlash (c : Char) : Bool := c = '/' || c = '\\'

/-- The host of a file and its path. No host and the host of the machine itself are written the
same way, and a path begins with one slash. -/
def file? (cs : List Char) : Option (List Char × List Char) :=
  let path (cs : List Char) : List Char := '/' :: (pathText true cs).dropWhile (· = '/')
  if 2 ≤ (cs.takeWhile isSlash).length then
    let rest := cs.drop 2
    let host? := match rest.takeWhile (!isSlash ·) with
      | [] => some []
      | host => webHost? host
    host?.map fun host =>
      (if host = "localhost".toList then [] else host, path (rest.dropWhile (!isSlash ·)))
  else some ([], path cs)

/-- The URL of a text, if it is one. -/
def parse? (s : String) : Option Url :=
  let (body, fragment) := splitFirst '#' (cleaned s.toList)
  let fragment := fragment.map (Percent.encode fragmentSafe)
  let (front, query) := splitFirst '?' body
  (scheme? front).bind fun (scheme, rest) =>
    match webSchemes.lookup scheme with
    | some implied =>
      let query := query.map (Percent.encode (querySafe true))
      if scheme = "file".toList then
        (file? rest).map fun (host, path) => ⟨scheme, some host, none, path, query, fragment⟩
      else
        let rest := rest.dropWhile isSlash
        (authority? true implied (rest.takeWhile (!isSlash ·))).map fun (host, number) =>
          ⟨scheme, some host, number, pathText true (rest.dropWhile (!isSlash ·)), query, fragment⟩
    | none =>
      let query := query.map (Percent.encode (querySafe false))
      match rest with
      | '/' :: '/' :: rest =>
        let path := rest.dropWhile (· ≠ '/')
        (authority? false none (rest.takeWhile (· ≠ '/'))).map fun (host, number) =>
          ⟨scheme, if host = [] then none else some host, number,
            if path = [] then [] else pathText false path, query, fragment⟩
      | '/' :: _ => some ⟨scheme, none, none, pathText false rest, query, fragment⟩
      | _ => some ⟨scheme, none, none, Percent.encode opaqueSafe rest, query, fragment⟩

def text (u : Url) : String :=
  String.ofList (u.scheme ++ ':' :: (match u.host with
    | some host => '/' :: '/' :: host ++ (match u.number with
      | some n => ':' :: Decimal.digits n
      | none => [])
    | none => []) ++ u.path ++
    (match u.query with
      | some q => '?' :: q
      | none => []) ++
    (match u.fragment with
      | some f => '#' :: f
      | none => []))

def target (u : Url) : String :=
  String.ofList ((if u.path = [] then ['/'] else u.path) ++ match u.query with
    | some q => '?' :: q
    | none => [])

/-- Whether requests can be sent to the URL: its scheme is that of HTTP, and no character of its
host would have to be escaped in a request. -/
def isHttp (u : Url) : Bool :=
  (u.scheme = "http".toList || u.scheme = "https".toList) &&
    match u.host with
    | some host => host.all fun c => c ∉ ['"', '\x60', '\x7b', '\x7d']
    | none => false

end Url

end InletRegistry.Net
