import InletRegistry.Json.Printer
import InletRegistry.Json.Reader
import InletRegistry.Json.Record
import InletRegistry.Text.Digits
import InletRegistry.Text.Pieces
import InletRegistry.Time.Calendar

/-!
# The audit trail

Every change that is carried out and every denial leaves an entry: who called, and what happened. A
record is an entry with its instant. Records are written one to a line as JSON objects in which the
event's fields stand beside the record's, and lines are read back into records. Entries are written
behind what is in the file of the trail already.
-/

namespace InletRegistry.Audit

open InletRegistry.Text InletRegistry.Time

/-- What an entry tells. -/
inductive Event where
  /-- A resource was changed and has this version now. -/
  | resourceUpdated (kind resourceId : String) (version : Option Nat)
  /-- A resource was removed, with or without a version claimed. -/
  | resourceDeleted (kind resourceId : String) (unconditional : Bool)
  /-- A caller was not allowed something. -/
  | authorizationDenied (resourceId reason : String)
  deriving DecidableEq, Repr

/-- Something that a caller brought about. -/
structure Entry where
  principal : String
  event : Event
  deriving DecidableEq, Repr

/-- An entry with its instant. -/
structure Record where
  time : Instant
  entry : Entry
  deriving DecidableEq, Repr

/-! ## Writing -/

def Event.fields : Event → List (String × Json)
  | resourceUpdated kind resourceId version =>
    [("event", .text "resource_updated"), ("kind", .text kind), ("resource_id", .text resourceId),
      ("version", Json.ofNatural? version)]
  | resourceDeleted kind resourceId unconditional =>
    [("event", .text "resource_deleted"), ("kind", .text kind), ("resource_id", .text resourceId),
      ("unconditional", .bool unconditional)]
  | authorizationDenied resourceId reason =>
    [("event", .text "authorization_denied"), ("resource_id", .text resourceId),
      ("reason", .text reason)]

def integer (n : Int) : Json :=
  if n < 0 then .number (.negative n.natAbs) else .natural n.natAbs

def Entry.toJson (e : Entry) : Json := .object (("principal", .text e.principal) :: e.event.fields)

def Record.toJson (r : Record) : Json :=
  .object (("at", integer r.time.milliseconds) :: ("principal", .text r.entry.principal) ::
    r.entry.event.fields)

/-- A record as one line, without the line break that ends it. -/
def Record.line (r : Record) : String := r.toJson.print

/-! ## Reading -/

def instant? : Json.Source → Option Instant
  | .number (some (.natural n)) => Instant.ofMilliseconds? n
  | .number (some (.negative n)) => Instant.ofMilliseconds? (-n)
  | _ => none

/-- The kinds of event. -/
inductive EventKind where
  | updated
  | deleted
  | denied
  deriving DecidableEq, Repr

def EventKind.names : List (String × EventKind) :=
  [("resource_updated", .updated), ("resource_deleted", .deleted),
    ("authorization_denied", .denied)]

/-- A kind of event by its name or its place in the list of names. -/
def eventKind? : Json.Source → Option EventKind
  | .text (some s) => EventKind.names.lookup s
  | .number (some (.natural n)) => (EventKind.names.map Prod.snd)[n]?
  | _ => none

/-- An event of a kind, its fields standing in a document beside others. -/
def event? (s : Json.Source) : EventKind → Option Event
  | .updated =>
    match s.fields? ["kind", "resource_id", "version"] 3 with
    | some [kind, resourceId, version] =>
      match Document.required Json.Source.toText? kind,
          Document.required Json.Source.toText? resourceId,
          Document.optional (Json.Source.toNatural? Decimal.word64) version with
      | some k, some r, some v => some (.resourceUpdated k r v)
      | _, _, _ => none
    | _ => none
  | .deleted =>
    match s.fields? ["kind", "resource_id", "unconditional"] 3 with
    | some [kind, resourceId, unconditional] =>
      match Document.required Json.Source.toText? kind,
          Document.required Json.Source.toText? resourceId,
          Document.required Json.Source.toBool? unconditional with
      | some k, some r, some u => some (.resourceDeleted k r u)
      | _, _, _ => none
    | _ => none
  | .denied =>
    match s.fields? ["resource_id", "reason"] 2 with
    | some [resourceId, reason] =>
      match Document.required Json.Source.toText? resourceId,
          Document.required Json.Source.toText? reason with
      | some i, some r => some (.authorizationDenied i r)
      | _, _ => none
    | _ => none

/-- An event from a document: its kind stands beside its fields, or in front of them in a list. -/
def Event.ofSource? : Json.Source → Option Event
  | .object fields =>
    match (Json.Source.object fields).fields? ["event"] 1 with
    | some [kind] => (Document.required eventKind? kind).bind (event? (.object fields))
    | _ => none
  | .list (kind :: rest) => (eventKind? kind).bind (event? (.list rest))
  | _ => none

/-- Whether everything beside the time and the principal could be kept. -/
def isKeepable : List (Option String × Json.Source) → Bool
  | [] => true
  | (name, s) :: rest =>
    (name = some "at" || name = some "principal" ||
      (s.value? (Json.Source.greatestDepth - 1)).isSome) && isKeepable rest

/-- A record from a document, which must be an object. -/
def Record.ofSource? (s : Json.Source) : Option Record :=
  match s with
  | .object fields =>
    if isKeepable fields then
      match s.fields? ["at", "principal"] 2 with
      | some [time, principal] =>
        match Document.required instant? time, Document.required Json.Source.toText? principal,
            Event.ofSource? s with
        | some t, some p, some e => some ⟨t, p, e⟩
        | _, _, _ => none
      | _ => none
    else none
  | _ => none

def Record.parse? (line : String) : Option Record :=
  (Json.Source.readText? line).bind Record.ofSource?

/-! ## The file -/

/-- What is written for an entry at a count of nanoseconds since the start of 1970. -/
def Entry.writtenAt (e : Entry) (nanoseconds : Int) : String :=
  Record.line ⟨.ofNanoseconds nanoseconds, e⟩ ++ "\n"

/-- The octets of a file behind which an entry is written. -/
def append (file : List UInt8) (nanoseconds : Int) (e : Entry) : List UInt8 :=
  file ++ Utf8.encode (e.writtenAt nanoseconds)

/-- The records of a file, if it is a text and each of its lines is one. -/
def records? (file : List UInt8) : Option (List Record) :=
  (Utf8.strict? file).bind fun cs => (lines cs).mapM fun line => Record.parse? (String.ofList line)

end InletRegistry.Audit
