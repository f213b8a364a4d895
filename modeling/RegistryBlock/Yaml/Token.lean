import RegistryBlock.Yaml.Scalar

/-!
# YAML tokens

The tokens of a document. Indentation has become tokens too: a block collection has an opening and
a closing token, and keys and values are marked. A mark for a key is often known only when the
colon behind it is read, so places where a key may begin are kept until then.
-/

namespace RegistryBlock.Yaml

inductive Directive where
  | version (major : Nat)
  | tag (handle expansion : String)
  | other
deriving DecidableEq, Repr

inductive Token where
  | directive (directive : Directive)
  | documentStart
  | documentEnd
  | blockSequenceStart
  | blockMappingStart
  | blockEnd
  | flowSequenceStart
  | flowSequenceEnd
  | flowMappingStart
  | flowMappingEnd
  | key
  | value
  | blockItem
  | flowItem
  | alias (name : String)
  | anchor (name : String)
  | tag (handle : Option String) (suffix : String)
  | scalar (text : String) (isPlain : Bool)
deriving DecidableEq, Repr

/-- A place where a key may begin: the number of tokens before it, where it is in the text, and
whether there is an error if it is none. -/
structure Candidate where
  tokens : Nat
  index : Nat
  line : Nat
  column : Nat
  required : Bool

/-- The state between two tokens. `indent` is the number of columns left of the innermost block,
plus one, so zero stands for no block. `candidates` has one place for every open flow collection,
innermost first, and one for the block around them. -/
structure Lexer where
  cursor : Cursor
  tokens : Array Token := #[]
  indent : Nat := 0
  outer : List Nat := []
  candidates : List (Option Candidate) := [none]
  keyAllowed : Bool := true

namespace Lexer

def inFlow (l : Lexer) : Bool := 1 < l.candidates.length

def push (l : Lexer) (token : Token) : Lexer := { l with tokens := l.tokens.push token }

def moveTo (l : Lexer) (c : Cursor) : Lexer := { l with cursor := c }

def insertAt (l : Lexer) (n : Nat) (token : Token) : Lexer :=
  let ts := l.tokens.toList
  { l with tokens := (ts.take n ++ token :: ts.drop n).toArray }

/-- Closes the blocks that are indented further than a line that begins at the given column. -/
def unwind (l : Lexer) (column : Nat) : Lexer :=
  if l.inFlow then l else go l (l.outer.length + 1)
where
  /-- Closes at most the given number of blocks. -/
  go (l : Lexer) : Nat → Lexer
    | 0 => l
    | steps + 1 =>
      if column + 1 < l.indent then
        go { l.push .blockEnd with indent := l.outer.head?.getD 0, outer := l.outer.tail } steps
      else l

def unwindAll (l : Lexer) : Lexer :=
  if l.inFlow then l
  else
    { l with
      tokens := l.tokens ++ (Array.replicate (if l.indent = 0 then 0 else l.outer.length) .blockEnd)
      indent := 0
      outer := [] }

/-- Opens a block at a column if it is indented further than the one around it. -/
def openBlock (l : Lexer) (column : Nat) : Option Lexer :=
  if l.indent < column + 1 then
    some { l with indent := column + 1, outer := l.indent :: l.outer }
  else none

def dropCandidate (l : Lexer) : Except Error Lexer :=
  match l.candidates with
  | some candidate :: rest =>
    if candidate.required then .error .token else .ok { l with candidates := none :: rest }
  | _ => .ok l

def saveCandidate (l : Lexer) : Except Error Lexer :=
  if l.keyAllowed then do
    let l ← l.dropCandidate
    let candidate : Candidate :=
      { tokens := l.tokens.size
        index := l.cursor.index
        line := l.cursor.line
        column := l.cursor.column
        required := !l.inFlow && l.indent = l.cursor.column + 1 }
    return { l with candidates := some candidate :: l.candidates.tail }
  else .ok l

/-- Forgets candidates on other lines or too far back. -/
def dropStale (l : Lexer) : Except Error Lexer := do
  let candidates ← l.candidates.mapM fun
    | none => Except.ok none
    | some candidate =>
      if candidate.line ≠ l.cursor.line || 1024 < l.cursor.index - candidate.index then
        if candidate.required then .error .token else .ok none
      else .ok (some candidate)
  return { l with candidates }

/-- Moves past spaces, comments and line breaks. A key may begin on a new line of a block. -/
def toToken (l : Lexer) : Nat → Lexer
  | 0 => l
  | turns + 1 =>
    let c := l.cursor.skipSpaces.skipComment
    match c.lineBreak? with
    | none => l.moveTo c
    | some (_, c) =>
      toToken { l.moveTo c with keyAllowed := l.keyAllowed || !l.inFlow } turns

/-! ### Single tokens -/

/-- Whether the character can stand in the name of an anchor or a directive. -/
def isNameChar (c : Char) : Bool := c.isAlphanum || c = '-' || c = '_'

def isAddressChar (c : Char) : Bool :=
  c.isAlphanum || "-;/?:@&=+$,_.!~*'()[]%".toList.contains c

/-- Bytes written by their hexadecimal codes, each behind a percent sign. -/
def escapedBytes : Nat → List Char → Option (List UInt8 × List Char)
  | 0, cs => some ([], cs)
  | turns + 1, cs =>
    match cs with
    | '%' :: a :: b :: rest =>
      (Text.hexNumber? [a, b]).bind fun n =>
        (escapedBytes turns rest).map fun (bytes, after) => (UInt8.ofNat n :: bytes, after)
    | '%' :: _ => none
    | _ => some ([], cs)

def resolveAddress : Nat → List Char → Option (List Char)
  | 0, _ => some []
  | turns + 1, cs =>
    match cs with
    | [] => some []
    | '%' :: _ =>
      (escapedBytes cs.length cs).bind fun (bytes, rest) =>
        (String.fromUTF8? ⟨bytes.toArray⟩).bind fun s =>
          (resolveAddress turns rest).map (s.toList ++ ·)
    | c :: rest => (resolveAddress turns rest).map (c :: ·)

def address (c : Cursor) : Except Error (String × Cursor) :=
  let (cs, c) := c.span isAddressChar
  match cs, resolveAddress cs.length cs with
  | _ :: _, some text => .ok (String.ofList text, c)
  | _, _ => .error .token

/-- The handle of a tag: an exclamation mark before a space, or two with a word between them. -/
def handle (c : Cursor) : Except Error (String × Cursor) :=
  if c.isAt '!' then
    if c.peek 1 = some ' ' then .ok ("!", c.next)
    else
      let (word, after) := c.next.span isNameChar
      if after.isAt '!' then .ok (String.ofList ('!' :: word ++ ['!']), after.next)
      else .error .token
  else .error .token

/-- A tag. A word without a further exclamation mark belongs to the address. -/
def tag (c : Cursor) : Except Error (Token × Cursor) := do
  let (token, c) ←
    (if c.peek 1 = some '<' then do
      let (suffix, c) ← address (c.skip 2)
      if c.isAt '>' then return (Token.tag none suffix, c.next) else throw .token
    else if endOr isSpace (c.peek 1) then return (Token.tag none "!", c.next)
    else
      let word := (c.next.rest.takeWhile fun d => !isSpace d || d = '\t')
      do
        let (h, c) ← (if word.contains '!' then handle c else Except.ok ("!", c.next))
        let (suffix, c) ← address c
        return (Token.tag (some h) suffix, c))
  if endOr isSpace c.peek && !c.isAt '\t' then return (token, c) else throw .token

def anchorName (c : Cursor) : Except Error (String × Cursor) :=
  let (name, c) := c.next.span isNameChar
  let ended := endOr (fun d => isSpace d || "?:,]\x7d%@`".toList.contains d) c.peek
  if name.isEmpty || !ended then .error .token else .ok (String.ofList name, c)

def natOf (ds : List Char) : Nat := ds.foldl (fun n c => 10 * n + (c.toNat - '0'.toNat)) 0

def directive (c : Cursor) : Except Error (Directive × Cursor) := do
  let (name, c) := c.span isNameChar
  if name.isEmpty || !endOr isSpace c.peek || c.isAt '\t' then throw .token
  if name = "YAML".toList then
    let (major, c) := c.skipSpaces.span Char.isDigit
    let (minor, after) := c.next.span Char.isDigit
    if major.isEmpty || !c.isAt '.' || minor.isEmpty || !endOr isSpace after.peek ||
        after.isAt '\t' then throw .token
    return (.version (natOf major), ← after.endLine)
  else if name = "TAG".toList then
    let (h, c) ← handle c.skipSpaces
    if !c.isAt ' ' then throw .token
    let (expansion, c) ← address c.skipSpaces
    if !endOr isSpace c.peek || c.isAt '\t' then throw .token
    return (.tag h expansion, ← c.endLine)
  else return (.other, ← c.skipLine.endLine)

/-! ### Reading tokens -/

def betweenDocuments (l : Lexer) (token : Token) (after : Cursor) : Except Error Lexer := do
  let l ← l.unwindAll.dropCandidate
  return { (l.push token).moveTo after with keyAllowed := false }

/-- The opening mark of a flow collection, which may itself be a key. -/
def openFlow (l : Lexer) (token : Token) : Except Error Lexer := do
  let l ← l.saveCandidate
  return { (l.push token).moveTo l.cursor.next with
    candidates := none :: l.candidates, keyAllowed := true }

def closeFlow (l : Lexer) (token : Token) : Except Error Lexer := do
  let l ← l.dropCandidate
  match l.candidates with
  | _ :: outer :: rest =>
    return { (l.push token).moveTo l.cursor.next with
      candidates := outer :: rest, keyAllowed := false }
  | _ => throw .token

def flowItem (l : Lexer) : Except Error Lexer := do
  let l ← l.dropCandidate
  return { (l.push .flowItem).moveTo l.cursor.next with keyAllowed := true }

def blockMark (l : Lexer) (opening : Token) : Except Error Lexer :=
  if l.inFlow then .ok l
  else if l.keyAllowed then
    .ok (match l.openBlock l.cursor.column with
      | some l => l.push opening
      | none => l)
  else .error .token

def blockItem (l : Lexer) : Except Error Lexer := do
  let l ← l.blockMark .blockSequenceStart
  let l ← l.dropCandidate
  return { (l.push .blockItem).moveTo l.cursor.next with keyAllowed := true }

def keyMark (l : Lexer) : Except Error Lexer := do
  let l ← l.blockMark .blockMappingStart
  let l ← l.dropCandidate
  return { (l.push .key).moveTo l.cursor.next with keyAllowed := !l.inFlow }

/-- The mark of a value. If a key may have begun before, it did. -/
def valueMark (l : Lexer) : Except Error Lexer := do
  match l.candidates with
  | some candidate :: rest =>
    let l := { l with candidates := none :: rest }.insertAt candidate.tokens .key
    let l :=
      if l.inFlow then l
      else
        match l.openBlock candidate.column with
        | some l => l.insertAt candidate.tokens .blockMappingStart
        | none => l
    return { (l.push .value).moveTo l.cursor.next with keyAllowed := false }
  | _ =>
    let l ← l.blockMark .blockMappingStart
    let l ← l.dropCandidate
    return { (l.push .value).moveTo l.cursor.next with keyAllowed := !l.inFlow }

def keyLike (l : Lexer) (read : Cursor → Except Error (Token × Cursor)) : Except Error Lexer := do
  let l ← l.saveCandidate
  let (token, c) ← read l.cursor
  return { (l.push token).moveTo c with keyAllowed := false }

def blockScalar (l : Lexer) (folded : Bool) : Except Error Lexer := do
  let l ← l.dropCandidate
  let (text, c) ← block folded l.indent l.cursor.next
  return { (l.push (.scalar (String.ofList text) false)).moveTo c with keyAllowed := true }

/-- A plain scalar. A key may begin after it if a line break follows. -/
def plainScalar (l : Lexer) : Except Error Lexer := do
  let l ← l.saveCandidate
  let (text, broken, c) :=
    plain l.inFlow l.indent [] false (l.cursor.rest.length + 1) l.cursor
  return { (l.push (.scalar (String.ofList text) true)).moveTo c with keyAllowed := broken }

def startsPlain (l : Lexer) : Bool :=
  match l.cursor.peek with
  | none => false
  | some d =>
    !(isSpace d || "-?:,[]\x7b\x7d#&*!|>'\"%@`".toList.contains d) ||
      (!endOr isSpace (l.cursor.peek 1) && (d = '-' || (!l.inFlow && (d = '?' || d = ':'))))

def readToken (l : Lexer) (d : Char) : Except Error Lexer :=
  let c := l.cursor
  let alone := endOr isSpace (c.peek 1)
  if d = '%' && c.column = 0 then do
    let (found, after) ← directive c.next
    l.betweenDocuments (.directive found) after
  else if c.column = 0 && c.isMark '-' then l.betweenDocuments .documentStart (c.skip 3)
  else if c.column = 0 && c.isMark '.' then l.betweenDocuments .documentEnd (c.skip 3)
  else if d = '[' then l.openFlow .flowSequenceStart
  else if d = '{' then l.openFlow .flowMappingStart
  else if d = ']' then l.closeFlow .flowSequenceEnd
  else if d = '}' then l.closeFlow .flowMappingEnd
  else if d = ',' then l.flowItem
  else if d = '-' && alone then l.blockItem
  else if d = '?' && (l.inFlow || alone) then l.keyMark
  else if d = ':' && (l.inFlow || alone) then l.valueMark
  else if d = '*' then
    l.keyLike fun c => (anchorName c).map fun (name, c) => (.alias name, c)
  else if d = '&' then
    l.keyLike fun c => (anchorName c).map fun (name, c) => (.anchor name, c)
  else if d = '!' then l.keyLike tag
  else if d = '|' && !l.inFlow then l.blockScalar false
  else if d = '>' && !l.inFlow then l.blockScalar true
  else if d = '\'' || d = '"' then
    l.keyLike fun c => (quoted (d = '"') (c.rest.length + 1) c.next).map fun (text, c) =>
      (.scalar (String.ofList text) false, c)
  else if l.startsPlain then l.plainScalar
  else .error .token

/-- Reads tokens to the end of the text. Every token takes a character, so there are no more tokens
to read than characters. -/
def run (l : Lexer) : Nat → Except Error (List Token)
  | 0 => .error .token
  | turns + 1 => do
    let l ← (l.toToken (l.cursor.rest.length + 1)).dropStale
    let l := l.unwind l.cursor.column
    match l.cursor.peek with
    | none =>
      let l ← l.unwindAll.dropCandidate
      return l.tokens.toList
    | some d =>
      let l ← l.readToken d
      l.run turns

end Lexer

/-- The tokens of a text. A byte order mark at the front does not count. -/
def Token.ofText (text : List Char) : Except Error (List Token) :=
  if text.all isAllowed then
    let start : Cursor := { rest := text }
    let start := if start.isAt '\uFEFF' then start.next else start
    Lexer.run { cursor := start } (text.length + 1)
  else .error .character

end RegistryBlock.Yaml
