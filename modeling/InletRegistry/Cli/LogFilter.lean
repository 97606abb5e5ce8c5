import InletRegistry.Settings.Basic
import InletRegistry.Text.Blank
import InletRegistry.Text.Digits
import InletRegistry.Text.Pieces

/-!
# What is logged

A filter is a list of directives with commas between them, each a level for a target and all below
it, or for everything. The directive with the longest target that a message falls under decides, and
of two with the same target the later one. A filter without directives lets errors through.
-/

namespace InletRegistry.Cli

open InletRegistry.Text

/-- How weighty a message must be, the numbers growing with the detail. -/
abbrev LogLevel := Nat

namespace LogLevel

def off : LogLevel := 0

def error : LogLevel := 1

def info : LogLevel := 3

def trace : LogLevel := 5

def names : List (String × LogLevel) :=
  [("off", off), ("error", error), ("warn", 2), ("info", info), ("debug", 4), ("trace", trace)]

/-- The level of a name in any letter case, or of its number. -/
def read? (cs : List Char) : Option LogLevel :=
  match Decimal.natural? trace cs with
  | some n => some n
  | none => names.lookup (String.ofList (cs.map Setting.lower))

end LogLevel

/-- A part of a filter. -/
structure Directive where
  /-- The target, if it is not for everything. -/
  target : Option (List Char)
  level : LogLevel
  /-- Whether it counts only inside of a span, of which there are none. -/
  isForSpans : Bool
  deriving DecidableEq, Repr

namespace Directive

/-- Whether a directive may begin with a character. -/
def mayBegin (c : Char) : Bool := c.isAlphanum || c == '-' || c == ':' || c == '_'

/-- The level behind an equals sign; none is all. -/
def levelOf? (cs : List Char) : Option LogLevel :=
  if cs = [] then some LogLevel.trace else LogLevel.read? cs

/-- The target of some characters; none is everything. -/
def targetOf (cs : List Char) : Option (List Char) := if cs = [] then none else some cs

/-- The directive for spans with a target and what follows its opening bracket. -/
def spans? (target rest : List Char) : Option Directive :=
  match rest.dropWhile (· ≠ ']') with
  | [']'] => some ⟨targetOf target, LogLevel.trace, true⟩
  | ']' :: '=' :: level => (levelOf? level).map fun l => ⟨targetOf target, l, true⟩
  | _ => none

def read? (cs : List Char) : Option Directive :=
  let cs := trimList cs
  let target := cs.takeWhile fun c => c ≠ '=' && c ≠ '['
  match cs, cs.dropWhile fun c => c ≠ '=' && c ≠ '[' with
  | '[' :: rest, _ => spans? [] rest
  | c :: _, rest =>
    if !mayBegin c then none
    else match rest with
      | '=' :: level => (levelOf? level).map fun l => ⟨some target, l, false⟩
      | _ :: inner => spans? target inner
      | [] =>
        match LogLevel.read? target with
        | some l => some ⟨none, l, false⟩
        | none => some ⟨some target, LogLevel.trace, false⟩
  | [], _ => none

/-- How long the target is that a message falls under; nothing if it does not. -/
def reach? (d : Directive) (target : List Char) : Option Nat :=
  if d.isForSpans then none
  else match d.target with
    | none => some 0
    | some t => if (after? t target).isSome then some (t.length + 1) else none

end Directive

abbrev LogFilter := List Directive

namespace LogFilter

def parts (s : String) : List (List Char) := (pieces ',' s.toList).filter (· ≠ [])

/-- The filter that a text spells, if all of it can be read. -/
def read? (s : String) : Option LogFilter := (parts s).mapM Directive.read?

def lenient (s : String) : LogFilter := (parts s).filterMap Directive.read?

/-- The directive that decides about a target: of two that it falls under, the one with the longer
target, or else the later one. -/
def decider? (f : LogFilter) (target : List Char) : Option Directive :=
  f.foldl (fun best d =>
    match d.reach? target, best.bind (·.reach? target) with
    | some n, some m => if m ≤ n then some d else best
    | some _, none => some d
    | none, _ => best) none

/-- Whether messages of a level for a target are logged. -/
def shows (f : LogFilter) (target : List Char) (level : LogLevel) : Bool :=
  let deciding := if f = [] then [⟨none, LogLevel.error, false⟩] else f
  match decider? deciding target with
  | some d => level ≤ d.level
  | none => false

/-- The filter that the environment spells, or else the configuration. -/
def choose (environment : Option String) (configured : String) : LogFilter :=
  (environment.bind read?).getD (lenient configured)

end LogFilter

end InletRegistry.Cli
