import InletRegistry.Cluster.Membership
import InletRegistry.Text.Digits
import InletRegistry.Text.Pieces

/-!
# The command line

A command is `serve` or `token`, each with options that have a value: `--name value` or
`--name=value`, every option at most once and in any order. Arguments are read from left to right
and the first that asks for help, or that makes no sense, decides; only then is it seen whether
something is missing.
-/

namespace InletRegistry.Cli

open InletRegistry.Text InletRegistry.Cluster

/-- What may be said on the command line about the node to serve. -/
structure ServeOptions where
  file : Option String
  nodeId : Option String
  bind : Option String
  baseUrl : Option String
  role : Option AssignedRole
  coordinator : Option String
  deriving DecidableEq, Repr

/-- What may be said on the command line about the token to issue. -/
structure TokenOptions where
  secret : String
  principal : String
  /-- Seconds until it expires. -/
  lifetime : Nat
  deriving DecidableEq, Repr

/-- What the program is to do. -/
inductive Command where
  | serve (o : ServeOptions)
  | token (o : TokenOptions)
  deriving DecidableEq, Repr

/-- Why there is nothing to do. -/
inductive Halt where
  | help
  /-- It is asked which version of the program this is. -/
  | version
  | misuse
  deriving DecidableEq, Repr

/-- How the program is used, line by line. -/
def usage : List String :=
  ["Cluster-aware mutation coordinator", "", "Usage: flowcoord <COMMAND>", "", "Commands:",
    "  serve  Start a node", "  token  Issue a bearer token for a principal",
    "  help   Print this message or the help of the given subcommand(s)", "", "Options:",
    "  -h, --help     Print help", "  -V, --version  Print version"]

namespace Arguments

/-! ## Options -/

/-- An option: its name and whether a text may be its value. -/
structure Known where
  /-- The name, without the hyphens in front. -/
  name : String
  accepts : String → Bool

/-- The options that have been read, latest first. -/
abbrev Given := List (String × String)

/-- Splits `name=value`. -/
def splitValue (cs : List Char) : String × Option String :=
  let name := String.ofList (cs.takeWhile (· ≠ '='))
  match cs.dropWhile (· ≠ '=') with
  | [] => (name, none)
  | _ :: value => (name, some (String.ofList value))

/-- Whether an argument stands for itself and is not an option. -/
def isPlain (argument : String) : Bool :=
  match argument.toList with
  | '-' :: _ :: _ => false
  | _ => true

def give (known : List Known) (given : Given) (name value : String) : Except Halt Given :=
  match known.find? (·.name = name) with
  | none => .error .misuse
  | some k =>
    if k.accepts value && (given.lookup name).isNone then .ok ((name, value) :: given)
    else .error .misuse

def options (known : List Known) (given : Given) : List String → Except Halt Given
  | [] => .ok given
  | argument :: rest =>
    match argument.toList with
    | '-' :: '-' :: option =>
      match splitValue option, rest with
      | ("", none), [] => .ok given
      | ("help", none), _ => .error .help
      | (name, some value), rest =>
        match give known given name value with
        | .error h => .error h
        | .ok given => options known given rest
      | (name, none), value :: rest =>
        if isPlain value then
          match give known given name value with
          | .error h => .error h
          | .ok given => options known given rest
        else .error .misuse
      | _, _ => .error .misuse
    | '-' :: 'h' :: _ => .error .help
    | _ => .error .misuse

/-! ## Commands -/

def anyText (_ : String) : Bool := true

/-- The options of `serve`. -/
def serveKnown : List Known :=
  [⟨"config", fun s => s ≠ ""⟩, ⟨"id", anyText⟩, ⟨"bind", anyText⟩, ⟨"base-url", anyText⟩,
    ⟨"role", fun s => (AssignedRole.names.lookup s).isSome⟩, ⟨"coordinator", anyText⟩]

def seconds? (s : String) : Option Nat := Decimal.natural? Decimal.word64 s.toList

/-- The options of `token`. -/
def tokenKnown : List Known :=
  [⟨"secret", anyText⟩, ⟨"principal", anyText⟩, ⟨"ttl", fun s => (seconds? s).isSome⟩]

/-- The lifetime of a token for which none is given: a day. -/
def dayLong : Nat := 86400

/-- The variable with the secret of a token for which none is given. -/
def secretVariable : String := "FLOWCOORD_JWT_SECRET"

/-- The options of `serve` that are given. -/
def serveOptions (given : Given) : ServeOptions :=
  ⟨given.lookup "config", given.lookup "id", given.lookup "bind", given.lookup "base-url",
    (given.lookup "role").bind fun s => AssignedRole.names.lookup s, given.lookup "coordinator"⟩

/-- The options of `token` that are given, unless a needed one is missing. -/
def tokenOptions? (environment : List (String × String)) (given : Given) : Option TokenOptions :=
  let secret := (given.lookup "secret").or (environment.lookup secretVariable)
  match secret, given.lookup "principal" with
  | some secret, some principal =>
    some ⟨secret, principal, ((given.lookup "ttl").bind seconds?).getD dayLong⟩
  | _, _ => none

/-- The names of the commands that help can be asked about. -/
def commandNames : List String := ["serve", "token", "help"]

/-- The command of some arguments in an environment. -/
def read (environment : List (String × String)) : List String → Except Halt Command
  | "serve" :: rest =>
    match options serveKnown [] rest with
    | .error h => .error h
    | .ok given => .ok (.serve (serveOptions given))
  | "token" :: rest =>
    match options tokenKnown [] rest with
    | .error h => .error h
    | .ok given =>
      match tokenOptions? environment given with
      | some o => .ok (.token o)
      | none => .error .misuse
  | "help" :: rest =>
    if rest.length ≤ 1 ∧ rest.all commandNames.contains then .error .help else .error .misuse
  | "--help" :: _ => .error .help
  | "--version" :: _ => .error .version
  | argument :: _ =>
    match argument.toList with
    | '-' :: 'h' :: _ => .error .help
    | '-' :: 'V' :: _ => .error .version
    | _ => .error .misuse
  | [] => .error .misuse

end Arguments

end InletRegistry.Cli
