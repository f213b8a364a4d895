/-!
# Places in a YAML text

A cursor is what is left of a text, with its place: the number of characters before it, the line,
and the column. A line ends at a line feed, a carriage return with or without one, or at U+0085,
U+2028 or U+2029.
-/

namespace RegistryBlock.Yaml

/-- Why a text is not a YAML document that can be read. -/
inductive Error where
  /-- A character that must not occur. -/
  | character
  /-- No token can be read. -/
  | token
  /-- The tokens do not form a document. -/
  | shape
  /-- An alias or an anchor is not unique. -/
  | anchor
  /-- A value does not fit its tag, or the tag is not known. -/
  | tag
  /-- A key cannot be the key of a mapping. -/
  | key
  /-- A scalar has the form of its type, but no value of it. -/
  | value
deriving DecidableEq, Repr

def isBreak (c : Char) : Bool :=
  c = '\n' || c = '\r' || c.toNat = 0x85 || c.toNat = 0x2028 || c.toNat = 0x2029

def isSpace (c : Char) : Bool := c = ' ' || c = '\t' || isBreak c

def endOr (p : Char → Bool) : Option Char → Bool
  | none => true
  | some c => p c

/-- Whether the character may occur in a text. -/
def isAllowed (c : Char) : Bool :=
  let n := c.toNat
  n = 9 || n = 10 || n = 13 || (0x20 ≤ n && n ≤ 0x7E) || n = 0x85 || (0xA0 ≤ n && n ≤ 0xD7FF) ||
    (0xE000 ≤ n && n ≤ 0xFFFD) || 0x10000 ≤ n

/-- What is left of a text, with its place. -/
structure Cursor where
  rest : List Char
  index : Nat := 0
  line : Nat := 0
  column : Nat := 0

namespace Cursor

def peek (c : Cursor) (n : Nat := 0) : Option Char := c.rest[n]?

def isAt (c : Cursor) (d : Char) : Bool := c.peek = some d

/-- The place after the next character. A byte order mark takes no column. -/
def next (c : Cursor) : Cursor :=
  match c.rest with
  | [] => c
  | d :: rest =>
    if isBreak d && !(d = '\r' && rest.head? = some '\n') then
      { rest, index := c.index + 1, line := c.line + 1, column := 0 }
    else
      { c with
        rest
        index := c.index + 1
        column := if d.toNat = 0xFEFF then c.column else c.column + 1 }

def skip (c : Cursor) : Nat → Cursor
  | 0 => c
  | n + 1 => c.next.skip n

def span (c : Cursor) (p : Char → Bool) : List Char × Cursor :=
  let front := c.rest.takeWhile p
  (front, c.skip front.length)

def skipSpaces (c : Cursor) : Cursor := (c.span (· = ' ')).2

def skipLine (c : Cursor) : Cursor := (c.span (!isBreak ·)).2

/-- The line break at the front, as the text it stands for. -/
def lineBreak? (c : Cursor) : Option (Char × Cursor) :=
  match c.rest with
  | '\r' :: '\n' :: _ => some ('\n', c.skip 2)
  | d :: _ =>
    if isBreak d then
      some (if d.toNat = 0x2028 ∨ d.toNat = 0x2029 then d else '\n', c.next)
    else none
  | [] => none

def isMark (c : Cursor) (d : Char) : Bool :=
  c.isAt d && c.peek 1 = some d && c.peek 2 = some d && endOr isSpace (c.peek 3)

def isDocumentMark (c : Cursor) : Bool := c.isMark '-' || c.isMark '.'

def skipComment (c : Cursor) : Cursor := if c.isAt '#' then c.skipLine else c

/-- The place after what may end a line: spaces, a comment and the line break. -/
def endLine (c : Cursor) : Except Error Cursor :=
  let c := c.skipSpaces.skipComment
  match c.lineBreak? with
  | some (_, c) => .ok c
  | none => if c.rest.isEmpty then .ok c else .error .token

end Cursor

end RegistryBlock.Yaml
