/-
Reading JSON, strictly: the grammar of the format and nothing beside it.

The readers take the characters that are left and answer with what they read and what is left after it. The nesting is
bounded by fuel, of which a text needs no more than it has characters.
-/
import ArrayEngine.Json.Value

namespace ArrayEngine.Json

/-- the characters that may stand between the parts of a document -/
def isSpace (c : Char) : Bool := c == ' ' || c == '\t' || c == '\n' || c == '\r'

def skipSpace (cs : List Char) : List Char := cs.dropWhile isSpace

/-- at least one digit -/
def readDigits (cs : List Char) : Option (List Char × List Char) :=
  let digits := cs.takeWhile Char.isDigit
  if digits = [] then none else some (digits, cs.dropWhile Char.isDigit)

/-- the whole part of a number: no zero before another digit -/
def readWhole : List Char → Option (List Char × List Char)
  | '0' :: r => some (['0'], r)
  | cs => readDigits cs

/-- the fraction of a number, if there is one -/
def readFraction : List Char → Option (List Char × List Char)
  | '.' :: r => (readDigits r).map fun (ds, r) => ('.' :: ds, r)
  | cs => some ([], cs)

/-- the exponent of a number, if there is one -/
def readExponent : List Char → Option (List Char × List Char)
  | c :: r =>
    if c = 'e' ∨ c = 'E' then
      match r with
      | '+' :: r => (readDigits r).map fun (ds, r) => (c :: '+' :: ds, r)
      | '-' :: r => (readDigits r).map fun (ds, r) => (c :: '-' :: ds, r)
      | r => (readDigits r).map fun (ds, r) => (c :: ds, r)
    else some ([], c :: r)
  | [] => some ([], [])

/-- a number, as it is written -/
def readNumber (cs : List Char) : Option (List Char × List Char) := do
  let (sign, cs) := match cs with
    | '-' :: r => (['-'], r)
    | r => ([], r)
  let (whole, cs) ← readWhole cs
  let (fraction, cs) ← readFraction cs
  let (exponent, cs) ← readExponent cs
  return (sign ++ whole ++ fraction ++ exponent, cs)

/-- a part of a string: a character, or a 16-bit unit written as an escape -/
inductive Piece where
  | char (c : Char)
  | unit (u : Nat)

def hexValue (c : Char) : Option Nat :=
  if '0' ≤ c ∧ c ≤ '9' then some (c.toNat - 48)
  else if 'a' ≤ c ∧ c ≤ 'f' then some (c.toNat - 87)
  else if 'A' ≤ c ∧ c ≤ 'F' then some (c.toNat - 55)
  else none

/-- the unit that four hexadecimal digits stand for -/
def readUnit : List Char → Option (Nat × List Char)
  | a :: b :: c :: d :: r => do
    return (((← hexValue a) * 16 + (← hexValue b)) * 256 + (← hexValue c) * 16 + (← hexValue d), r)
  | _ => none

/-- the character of a short escape -/
def shortEscape : Char → Option Char
  | '\"' => some '\"'
  | '\\' => some '\\'
  | '/' => some '/'
  | 'b' => some '\x08'
  | 'f' => some '\x0c'
  | 'n' => some '\n'
  | 'r' => some '\r'
  | 't' => some '\t'
  | _ => none

/-- one part of a string; a control character must not stand in it -/
def readPiece : List Char → Option (Piece × List Char)
  | '\\' :: 'u' :: r => (readUnit r).map fun (u, r) => (.unit u, r)
  | '\\' :: c :: r => (shortEscape c).map fun c => (.char c, r)
  | c :: r => if c.toNat < 0x20 ∨ c = '\\' then none else some (.char c, r)
  | [] => none

/-- the parts of a string up to the closing quote -/
def readPieces : Nat → List Char → Option (List Piece × List Char)
  | _, '\"' :: r => some ([], r)
  | fuel + 1, cs => do
    let (p, r) ← readPiece cs
    let (ps, r) ← readPieces fuel r
    return (p :: ps, r)
  | 0, _ => none

def isHighSurrogate (u : Nat) : Bool := decide (0xd800 ≤ u) && decide (u < 0xdc00)

def isLowSurrogate (u : Nat) : Bool := decide (0xdc00 ≤ u) && decide (u < 0xe000)

/-- the text of a string's parts; half of a surrogate pair has none -/
def piecesText : List Piece → Option (List Char)
  | [] => some []
  | .char c :: r => (piecesText r).map (c :: ·)
  | .unit h :: .unit l :: r =>
    if isHighSurrogate h then
      if isLowSurrogate l then
        (piecesText r).map (Char.ofNat (0x10000 + (h - 0xd800) * 0x400 + (l - 0xdc00)) :: ·)
      else none
    else if isLowSurrogate h then none
    else (piecesText (.unit l :: r)).map (Char.ofNat h :: ·)
  | .unit u :: r =>
    if isHighSurrogate u || isLowSurrogate u then none else (piecesText r).map (Char.ofNat u :: ·)

/-- a string after its opening quote -/
def readString (cs : List Char) : Option (Option String × List Char) :=
  (readPieces cs.length cs).map fun (ps, r) => ((piecesText ps).map String.ofList, r)

/-- what stands after a colon -/
def afterColon (cs : List Char) : Option (List Char) :=
  match skipSpace cs with
  | ':' :: r => some (skipSpace r)
  | _ => none

mutual

/-- a value that starts with the first character -/
def readValue : Nat → List Char → Option (Json × List Char)
  | 0, _ => none
  | fuel + 1, cs =>
    match cs with
    | 'n' :: 'u' :: 'l' :: 'l' :: r => some (.null, r)
    | 't' :: 'r' :: 'u' :: 'e' :: r => some (.bool true, r)
    | 'f' :: 'a' :: 'l' :: 's' :: 'e' :: r => some (.bool false, r)
    | '\"' :: r => (readString r).map fun (s, r) => (.string s, r)
    | '[' :: r =>
      match skipSpace r with
      | ']' :: r => some (.array [], r)
      | r => (readElements fuel r).map fun (vs, r) => (.array vs, r)
    | '\x7b' :: r =>
      match skipSpace r with
      | '\x7d' :: r => some (.object [], r)
      | r => (readMembers fuel r).map fun (ms, r) => (.object ms, r)
    | cs => (readNumber cs).map fun (n, r) => (.number n, r)

/-- the elements of an array, at least one, and the closing bracket -/
def readElements : Nat → List Char → Option (List Json × List Char)
  | 0, _ => none
  | fuel + 1, cs => do
    let (v, r) ← readValue fuel cs
    match skipSpace r with
    | ',' :: r => (readElements fuel (skipSpace r)).map fun (vs, r) => (v :: vs, r)
    | ']' :: r => some ([v], r)
    | _ => none

/-- the members of an object, at least one, and the closing brace -/
def readMembers : Nat → List Char → Option (List (Option String × Json) × List Char)
  | 0, _ => none
  | fuel + 1, cs =>
    match cs with
    | '\"' :: r => do
      let (k, r) ← readString r
      let (v, r) ← readValue fuel (← afterColon r)
      match skipSpace r with
      | ',' :: r => (readMembers fuel (skipSpace r)).map fun (ms, r) => ((k, v) :: ms, r)
      | '\x7d' :: r => some ([(k, v)], r)
      | _ => none
    | _ => none

end

/-- the value of a document: one value, with space around it -/
def read (s : String) : Option Json := do
  let cs := s.toList
  let (v, r) ← readValue (cs.length + 1) (skipSpace cs)
  if skipSpace r = [] then some v else none

end ArrayEngine.Json
