import InletRegistry.Config.Record
import InletRegistry.Settings.Source

/-!
# Loading a configuration

A configuration is laid in layers: defaults, a file if one is named, and the environment over both.
The file is the one asked for, or else the one that the environment names; a file that is named must
be there. What comes out is validated.
-/

namespace InletRegistry

/-- What a program finds around it. -/
structure Surroundings where
  environment : List (String × String)
  /-- The octets of the file at a path, if there is a file. -/
  file? : String → Option (List UInt8)

namespace Config

/-- Why there is no configuration. -/
inductive LoadFault where
  /-- The file that is named is not there. -/
  | missing (path : String)
  | unreadable
  | flawed (f : Flaw)
  deriving DecidableEq, Repr

def LoadFault.message : LoadFault → String
  | missing path => "config file " ++ path ++ " does not exist"
  | unreadable => "a setting or a file cannot be read"
  | flawed f => f.message

def LoadFault.toFailure (f : LoadFault) : Failure := .invalidConfig f.message

def pathVariable : String := "FLOWCOORD_CONFIG"

/-- The values of the file that is asked for, or else named by the environment. -/
def fileValues (around : Surroundings) (path : Option String) :
    Except LoadFault (List (String × Setting)) :=
  match path.or (around.environment.lookup pathVariable) with
  | none => .ok []
  | some path =>
    match around.file? path with
    | none => .error (.missing path)
    | some octets =>
      match Settings.ofFile? path octets with
      | none => .error .unreadable
      | some values => .ok values

def sound (c : Config) : Except LoadFault Config :=
  match c.flaw? with
  | some f => .error (.flawed f)
  | none => .ok c

/-- Loads a configuration, from the file at a path if there is one. -/
def load (around : Surroundings) (path : Option String) : Except LoadFault Config :=
  match fileValues around path with
  | .error f => .error f
  | .ok values =>
    let layered := (Setting.table []).putAll (values ++ Settings.ofEnvironment around.environment)
    match ofDocument? layered with
    | none => .error .unreadable
    | some c => c.sound

end Config

end InletRegistry
