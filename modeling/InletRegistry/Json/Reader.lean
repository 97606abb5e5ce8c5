import InletRegistry.Json.Token
import InletRegistry.Text.Utf8

/-!
# Reading JSON

Tokens are put together to a document by a machine that keeps the lists and objects still open, so
that a document may nest as deep as it likes. `read?` takes octets, `readText?` a text; both want
one document and nothing after it.
-/

namespace InletRegistry.Json

open InletRegistry.Text

/-- A list or an object that is still open. -/
inductive Frame where
  /-- A list and its items so far, latest first. -/
  | list (done : List Source)
  /-- An object, its fields so far, latest first, and the name that waits for its value. -/
  | object (done : List (Option String × Source)) (name : Option String)

/-- What may come next. -/
inductive Expectation where
  | value
  /-- The first item of a list, or its end. -/
  | itemOrEnd
  /-- The first name of an object, or its end; the fields so far are kept beside it. -/
  | nameOrEnd
  /-- A name, after a comma. -/
  | name (done : List (Option String × Source))
  /-- The colon after a name. -/
  | colon
  /-- A comma, or the end of what is open, after a document. -/
  | more (latest : Source)

/-- The machine between two tokens. -/
structure Builder where
  /-- What is open, innermost first. -/
  frames : List Frame
  expects : Expectation

namespace Builder

/-- The machine before the first token. -/
def start : Builder := ⟨[], .value⟩

def value? (frames : List Frame) : Token → Option Builder
  | .scalar s => some ⟨frames, .more s⟩
  | .mark .listStart => some ⟨.list [] :: frames, .itemOrEnd⟩
  | .mark .objectStart => some ⟨frames, .nameOrEnd⟩
  | .mark _ => none

def name? (frames : List Frame) (done : List (Option String × Source)) : Token → Option Builder
  | .scalar (.text n) => some ⟨.object done n :: frames, .colon⟩
  | _ => none

/-- Takes a token after a document that is part of the innermost open one. -/
def more? (latest : Source) : List Frame → Token → Option Builder
  | .list done :: frames, .mark .comma => some ⟨.list (latest :: done) :: frames, .value⟩
  | .list done :: frames, .mark .listEnd => some ⟨frames, .more (.list (latest :: done).reverse)⟩
  | .object done n :: frames, .mark .comma => some ⟨frames, .name ((n, latest) :: done)⟩
  | .object done n :: frames, .mark .objectEnd =>
    some ⟨frames, .more (.object ((n, latest) :: done).reverse)⟩
  | _, _ => none

def take? (b : Builder) (t : Token) : Option Builder :=
  match b.expects with
  | .value => value? b.frames t
  | .itemOrEnd =>
    match b.frames, t with
    | .list [] :: frames, .mark .listEnd => some ⟨frames, .more (.list [])⟩
    | frames, t => value? frames t
  | .nameOrEnd =>
    match t with
    | .mark .objectEnd => some ⟨b.frames, .more (.object [])⟩
    | t => name? b.frames [] t
  | .name done => name? b.frames done t
  | .colon =>
    match t with
    | .mark .colon => some ⟨b.frames, .value⟩
    | _ => none
  | .more latest => more? latest b.frames t

def run? : Builder → List Token → Option Builder
  | b, [] => some b
  | b, t :: rest =>
    match b.take? t with
    | some b => run? b rest
    | none => none

/-- Taking tokens in two parts is taking them at once. -/
theorem run?_append (b : Builder) (xs ys : List Token) :
    b.run? (xs ++ ys) = (b.run? xs).bind fun c => c.run? ys := by
  induction xs generalizing b with
  | nil => rfl
  | cons x xs ih =>
    simp only [List.cons_append, run?]
    split
    · exact ih _
    · rfl

/-- The document, if nothing is open. -/
def finish? (b : Builder) : Option Source :=
  match b.frames, b.expects with
  | [], .more s => some s
  | _, _ => none

end Builder

namespace Source

def ofTokens? (tokens : List Token) : Option Source :=
  (Builder.start.run? tokens).bind Builder.finish?

def ofSymbols? (symbols : List Symbol) : Option Source := (Token.scan? symbols).bind ofTokens?

def readText? (s : String) : Option Source := ofSymbols? (s.toList.map some)

def read? (bs : List UInt8) : Option Source := ofSymbols? (Utf8.marked bs)

end Source

end InletRegistry.Json
