/-!
# Pieces between separators

A text with a separator in it is a list of pieces, of which there is always at least one.

A path is a list of segments with a slash between neighbours. `reaches` holds when a base is the path
itself or ends where one of the path's slashes stands, which is to say that the base's segments begin
the path's.

A line ends at a line feed, and a carriage return in front of that belongs to the end. What stands
behind the last line feed is a line too, unless it is nothing.
-/

namespace InletRegistry.Text

def pieces (separator : Char) : List Char → List (List Char)
  | [] => [[]]
  | c :: rest =>
    if c = separator then [] :: pieces separator rest
    else match pieces separator rest with
      | [] => [[c]]
      | s :: more => (c :: s) :: more

/-- There is always a piece. -/
theorem pieces_ne_nil (separator : Char) (cs : List Char) : pieces separator cs ≠ [] := by
  cases cs with
  | nil => simp [pieces]
  | cons c rest =>
    unfold pieces
    split
    · simp
    · split <;> simp

/-! ## Segments -/

/-- The pieces of a path between its slashes; there is always at least one. -/
def segments : List Char → List (List Char) := pieces '/'

/-- What follows a beginning in a text that starts with it. -/
def after? : List Char → List Char → Option (List Char)
  | [], cs => some cs
  | _ :: _, [] => none
  | b :: base, c :: cs => if b = c then after? base cs else none

/-- The base is the path, or goes up to one of the path's slashes. -/
def reaches (base path : String) : Bool :=
  match after? base.toList path.toList with
  | some [] => true
  | some ('/' :: _) => true
  | _ => false

/-- The base goes up to one of the path's slashes, so the path lies strictly below it. -/
def liesBelow (base path : List Char) : Bool :=
  match after? base path with
  | some ('/' :: _) => true
  | _ => false

def dropFinalSlashes (s : String) : String :=
  String.ofList ((s.toList.reverse.dropWhile (· = '/')).reverse)

/-- A path has at least one segment. -/
theorem segments_ne_nil (cs : List Char) : segments cs ≠ [] := pieces_ne_nil '/' cs

/-- A text starts with a beginning exactly when the rest is what follows it. -/
theorem after?_eq_some_iff {base cs rest : List Char} :
    after? base cs = some rest ↔ cs = base ++ rest := by
  induction base generalizing cs with
  | nil => simp [after?]
  | cons b base ih =>
    cases cs with
    | nil => simp [after?]
    | cons c cs =>
      by_cases h : b = c
      · simp [after?, h, ih]
      · simp [after?, h, Ne.symm h]

/-! ## Lines -/

/-- A line without the carriage return at its end. -/
def dropReturn (line : List Char) : List Char :=
  match line.reverse with
  | '\r' :: front => front.reverse
  | _ => line

/-- The lines that the pieces between line feeds are. -/
def linesOf : List (List Char) → List (List Char)
  | [] => []
  | [last] => if last = [] then [] else [last]
  | line :: more => dropReturn line :: linesOf more

def lines (cs : List Char) : List (List Char) := linesOf (pieces '\n' cs)

end InletRegistry.Text
