/-!
# Lines

A line ends at a line feed, a carriage return, the pair of both, a vertical tab, a form feed, one
of the separators U+001C to U+001E, U+0085, U+2028 or U+2029. `Newline` conversion knows only the
first three, and turns each into a line feed.
-/

namespace RegistryBlock.Text

def isLineEnd (c : Char) : Bool :=
  let n := c.toNat
  (10 ≤ n && n ≤ 13) || (28 ≤ n && n ≤ 30) || n == 0x85 || n == 0x2028 || n == 0x2029

def consLine (c : Char) : List (List Char) → List (List Char)
  | [] => [[c]]
  | line :: more => (c :: line) :: more

/-- The lines of a text without their ends. A line end at the very end opens no further line. -/
def lines : List Char → List (List Char)
  | [] => []
  | '\r' :: '\n' :: cs => [] :: lines cs
  | c :: cs => if isLineEnd c then [] :: lines cs else consLine c (lines cs)

/-- The text with every carriage return, alone or before a line feed, written as a line feed. -/
def unifyNewlines : List Char → List Char
  | [] => []
  | '\r' :: '\n' :: cs => '\n' :: unifyNewlines cs
  | c :: cs => (if c = '\r' then '\n' else c) :: unifyNewlines cs

end RegistryBlock.Text
