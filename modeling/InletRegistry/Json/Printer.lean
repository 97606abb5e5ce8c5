import InletRegistry.Json.Basic
import InletRegistry.Text.Digits
import InletRegistry.Text.Utf8

/-!
# Writing JSON

The compact form: no blanks, and in a text only the quote, the backslash and control characters are
escaped, those with a short escape by it and the others by four hexadecimal digits in lower case.
No written value holds a line break.
-/

namespace InletRegistry.Json

open InletRegistry.Text

def quoteChar (c : Char) : List Char :=
  if c = '"' then ['\\', '"']
  else if c = '\\' then ['\\', '\\']
  else if c = '\n' then ['\\', 'n']
  else if c = '\r' then ['\\', 'r']
  else if c = '\t' then ['\\', 't']
  else if c = Char.ofNat 8 then ['\\', 'b']
  else if c = Char.ofNat 12 then ['\\', 'f']
  else if c.toNat < 0x20 then
    ['\\', 'u', '0', '0', Hex.lower (c.toNat / 16), Hex.lower (c.toNat % 16)]
  else [c]

def quote (cs : List Char) : List Char := '"' :: (cs.flatMap quoteChar ++ ['"'])

mutual

def printList : Json → List Char
  | .null => ['n', 'u', 'l', 'l']
  | .bool true => ['t', 'r', 'u', 'e']
  | .bool false => ['f', 'a', 'l', 's', 'e']
  | .number n => n.print
  | .text s => quote s.toList
  | .list items => '[' :: (printItems items ++ [']'])
  | .object fields => '\x7b' :: (printFields fields ++ ['\x7d'])

def printItems : List Json → List Char
  | [] => []
  | [v] => printList v
  | v :: rest => printList v ++ ',' :: printItems rest

/-- The fields of an object with commas between them. -/
def printFields : List (String × Json) → List Char
  | [] => []
  | [(n, v)] => quote n.toList ++ ':' :: printList v
  | (n, v) :: rest => quote n.toList ++ ':' :: (printList v ++ ',' :: printFields rest)

end

def print (v : Json) : String := String.ofList (printList v)

def octets (v : Json) : List UInt8 := Utf8.encodeList (printList v)

end InletRegistry.Json
