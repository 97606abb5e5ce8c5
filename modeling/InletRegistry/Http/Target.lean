/-!
# Request targets

Where a request goes: a path and a query, as they are written. A target is a path with a query, or
a whole URI of which the scheme and the authority are passed over; a fragment never counts.
-/

namespace InletRegistry.Http

/-- What a request asks for. -/
structure Target where
  /-- The path as it is written; empty if the target has none. -/
  rawPath : String
  /-- The query behind the question mark, as it is written. -/
  query : Option String
  deriving DecidableEq, Repr

namespace Target

/-- The target of a path, a query and a fragment in one text. -/
def ofPathAndQuery (cs : List Char) : Target :=
  let cs := cs.takeWhile (· ≠ '#')
  let path := String.ofList (cs.takeWhile (· ≠ '?'))
  match cs.dropWhile (· ≠ '?') with
  | [] => ⟨path, none⟩
  | _ :: query => ⟨path, some (String.ofList query)⟩

/-- What follows the scheme and the two slashes of a whole URI. -/
def afterScheme? : List Char → Option (List Char)
  | ':' :: '/' :: '/' :: rest => some rest
  | c :: rest => if c.isAlphanum || c = '+' || c = '-' || c = '.' then afterScheme? rest else none
  | [] => none

def endsAuthority (c : Char) : Bool := c = '/' || c = '?' || c = '#'

/-- The target of a request line; a URI that ends with its authority asks for the root. -/
def parse (s : String) : Target :=
  match afterScheme? s.toList with
  | some rest =>
    let t := ofPathAndQuery (rest.dropWhile (!endsAuthority ·))
    if t = ⟨"", none⟩ then ⟨"/", none⟩ else t
  | none => ofPathAndQuery s.toList

def path (t : Target) : String := if t.rawPath = "" then "/" else t.rawPath

def pathAndQuery (t : Target) : String :=
  match t.query with
  | some q => t.rawPath ++ "?" ++ q
  | none => t.rawPath

end Target

end InletRegistry.Http
