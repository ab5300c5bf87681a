/-
Blank characters and what is cut at them.

`isBlank` is the Unicode property White_Space. `trim` takes the blanks from both ends of a text, `words` are the pieces
between blanks, `lines` the pieces between line feeds, trimmed and without the blank ones.
-/

namespace ArrayEngine.Text

/-- the ranges of the Unicode property White_Space -/
def blankRanges : List (Nat × Nat) :=
  [(0x9, 0xd), (0x20, 0x20), (0x85, 0x85), (0xa0, 0xa0), (0x1680, 0x1680), (0x2000, 0x200a), (0x2028, 0x2029),
   (0x202f, 0x202f), (0x205f, 0x205f), (0x3000, 0x3000)]

/-- whether a character is White_Space -/
def isBlank (c : Char) : Bool := blankRanges.any fun (lo, hi) => lo ≤ c.toNat && c.toNat ≤ hi

/-- a text without the characters at its end that satisfy `p` -/
def trimEndOf (p : Char → Bool) (cs : List Char) : List Char := (cs.reverse.dropWhile p).reverse

def trimEnd (cs : List Char) : List Char := trimEndOf isBlank cs

def trimStart (cs : List Char) : List Char := cs.dropWhile isBlank

def trim (cs : List Char) : List Char := trimEnd (trimStart cs)

/-- the longest pieces of a text without a blank -/
def words (cs : List Char) : List (List Char) := (cs.splitOnP isBlank).filter (· ≠ [])

/-- the lines of a text, trimmed; blank lines are left out -/
def lines (cs : List Char) : List (List Char) := ((cs.splitOn '\n').map trim).filter (· ≠ [])

/-- what stands before and after the first `c` -/
def splitFirst (c : Char) : List Char → Option (List Char × List Char)
  | [] => none
  | d :: ds => if d = c then some ([], ds) else (splitFirst c ds).map fun (l, r) => (d :: l, r)

/-- what stands before and after the last `c` -/
def splitLast (c : Char) (cs : List Char) : Option (List Char × List Char) :=
  (splitFirst c cs.reverse).map fun (r, l) => (l.reverse, r.reverse)

/-- what stands after the first occurrence of `pattern` -/
def afterFirst (pattern : List Char) : List Char → Option (List Char)
  | [] => if pattern = [] then some [] else none
  | c :: cs =>
    if pattern.isPrefixOf (c :: cs) then some ((c :: cs).drop pattern.length) else afterFirst pattern cs

/-- a text without the character `c` at its end, which must be there -/
def dropLast? (c : Char) (cs : List Char) : Option (List Char) :=
  if cs.getLast? = some c then some cs.dropLast else none

end ArrayEngine.Text
