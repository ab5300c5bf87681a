/-
Writing JSON: in one line without spaces, or set out over lines with two spaces a level.

In a string only the quote, the backslash and the control characters are escaped. A string without a text is written as
the lone surrogate that it has to contain.
-/
import ArrayEngine.Json.Value

namespace ArrayEngine.Json

/-- a character of a string -/
def escape (c : Char) : List Char :=
  if c = '\"' then ['\\', '\"']
  else if c = '\\' then ['\\', '\\']
  else if c = '\x08' then ['\\', 'b']
  else if c = '\t' then ['\\', 't']
  else if c = '\n' then ['\\', 'n']
  else if c = '\x0c' then ['\\', 'f']
  else if c = '\r' then ['\\', 'r']
  else if c.toNat < 0x20 then
    ['\\', 'u', '0', '0', Nat.digitChar (c.toNat / 16), Nat.digitChar (c.toNat % 16)]
  else [c]

/-- a string with its quotes -/
def writeString (s : Option String) : List Char :=
  match s with
  | some s => '\"' :: s.toList.flatMap escape ++ ['\"']
  | none => "\"\\ud800\"".toList

mutual

/-- a value in one line -/
def write : Json → List Char
  | .null => "null".toList
  | .bool true => "true".toList
  | .bool false => "false".toList
  | .number text => text
  | .string s => writeString s
  | .array [] => "[]".toList
  | .array (v :: vs) => '[' :: write v ++ writeElements vs
  | .object [] => "\x7b\x7d".toList
  | .object ((k, v) :: ms) => '\x7b' :: writeString k ++ ':' :: write v ++ writeMembers ms

/-- the elements after the first, and the closing bracket -/
def writeElements : List Json → List Char
  | [] => [']']
  | v :: vs => ',' :: write v ++ writeElements vs

/-- the members after the first, and the closing brace -/
def writeMembers : List (Option String × Json) → List Char
  | [] => ['\x7d']
  | (k, v) :: ms => ',' :: writeString k ++ ':' :: write v ++ writeMembers ms

end

/-- a new line at the given level -/
def newLine (level : Nat) : List Char := '\n' :: List.replicate (2 * level) ' '

mutual

/-- a value over lines, starting at the given level -/
def setOut (level : Nat) : Json → List Char
  | .array (v :: vs) => '[' :: newLine (level + 1) ++ setOut (level + 1) v ++ setOutElements level vs
  | .object ((k, v) :: ms) =>
    '\x7b' :: newLine (level + 1) ++ writeString k ++ ':' :: ' ' :: setOut (level + 1) v ++ setOutMembers level ms
  | v => write v

/-- the elements after the first, and the closing bracket -/
def setOutElements (level : Nat) : List Json → List Char
  | [] => newLine level ++ [']']
  | v :: vs => ',' :: newLine (level + 1) ++ setOut (level + 1) v ++ setOutElements level vs

/-- the members after the first, and the closing brace -/
def setOutMembers (level : Nat) : List (Option String × Json) → List Char
  | [] => newLine level ++ ['\x7d']
  | (k, v) :: ms =>
    ',' :: newLine (level + 1) ++ writeString k ++ ':' :: ' ' :: setOut (level + 1) v ++ setOutMembers level ms

end

/-- a document in one line -/
def compact (v : Json) : String := String.ofList v.write

/-- a document over lines -/
def pretty (v : Json) : String := String.ofList (v.setOut 0)

end ArrayEngine.Json
