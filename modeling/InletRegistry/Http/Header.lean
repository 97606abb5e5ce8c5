import InletRegistry.Text.Utf8

/-!
# Header fields

The fields of a message as pairs of a name in lower case and a value of octets. A name may have
several values, whose order is kept. A value counts as text only if all of its octets are visible
ASCII, spaces and tabs; a text may become a value if it has no control characters but tabs.
-/

namespace InletRegistry.Http

open InletRegistry.Text

/-- A header field: its name in lower case and its value. -/
abbrev Header := String × List UInt8

abbrev Headers := List Header

def headerValue (s : String) : List UInt8 := Utf8.encode s

/-- A value as text, if it is visible ASCII, spaces and tabs. -/
def headerText? (value : List UInt8) : Option (List Char) :=
  if value.all fun b => b = 9 || (0x20 ≤ b && b < 0x7F) then
    some (value.map fun b => Char.ofNat b.toNat)
  else none

/-- The value that a text makes, if it may stand in a header. -/
def headerValue? (s : String) : Option (List UInt8) :=
  let value := Utf8.encode s
  if value.all fun b => b = 9 || (0x20 ≤ b && b ≠ 0x7F) then some value else none

namespace Headers

def has (h : Headers) (name : String) : Bool := h.any (·.1 = name)

/-- The first value of a name. -/
def first? (h : Headers) (name : String) : Option (List UInt8) := h.lookup name

def values (h : Headers) (name : String) : List (List UInt8) :=
  (h.filter (·.1 = name)).map Prod.snd

def remove (h : Headers) (name : String) : Headers := h.filter (·.1 ≠ name)

/-- The fields with one value for a name in place of all others. -/
def set (h : Headers) (name : String) (value : List UInt8) : Headers :=
  h.remove name ++ [(name, value)]

def without (h : Headers) (names : List String) : Headers :=
  h.filter fun f => !names.contains f.1

/-- A name that is set has that value and no other. -/
theorem values_set (h : Headers) (name : String) (value : List UInt8) :
    (h.set name value).values name = [value] := by
  have hnone : (h.remove name).filter (·.1 = name) = [] := by
    rw [remove, List.filter_filter, List.filter_eq_nil_iff]
    intro f _
    by_cases hf : f.1 = name <;> simp [hf]
  simp [set, values, List.filter_append, hnone]

end Headers

end InletRegistry.Http
