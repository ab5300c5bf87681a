/-
Text between quotes, with everything escaped that would not be seen as it is.
-/
import ArrayEngine.Text.Escaped

namespace ArrayEngine.Text

/-- a character inside quotes -/
def quoteChar (c : Char) : List Char :=
  if c = '\"' then ['\\', '\"']
  else if c = '\\' then ['\\', '\\']
  else if c = '\t' then ['\\', 't']
  else if c = '\n' then ['\\', 'n']
  else if c = '\r' then ['\\', 'r']
  else if c.toNat = 0 then ['\\', '0']
  else if isEscaped c then ['\\', 'u', '\x7b'] ++ Nat.toDigits 16 c.toNat ++ ['\x7d']
  else [c]

/-- a text between quotes -/
def quoted (s : String) : String := String.ofList ('\"' :: s.toList.flatMap quoteChar ++ ['\"'])

end ArrayEngine.Text
