import RegistryBlock.Text.Hex
import RegistryBlock.Yaml.Cursor

/-!
# The text of YAML scalars

A scalar is written plainly, between quotation marks, or as a block of lines. Line breaks inside a
scalar are folded: a single one becomes a space, of several the first one is dropped. In a literal
block they are kept. Each reader takes as many turns as there are characters, which is enough
because every turn but the last consumes one.
-/

namespace RegistryBlock.Yaml

/-- The text that a break and the empty lines after it fold into. -/
def fold (first : Char) (breaks : List Char) : List Char :=
  if first ≠ '\n' then first :: breaks else if breaks.isEmpty then [' '] else breaks

/-! ### Plain scalars -/

def isFlowMark (c : Char) : Bool := c = ',' || c = '[' || c = ']' || c = '{' || c = '}'

/-- The front of a text that belongs to a plain scalar, up to the next space. -/
def plainRun (inFlow : Bool) : List Char → List Char
  | [] => []
  | c :: rest =>
    if isSpace c then []
    else if c = ':' ∧ endOr (fun d => isSpace d || (inFlow && isFlowMark d)) rest.head? then []
    else if inFlow && (isFlowMark c || c = '?') then []
    else c :: plainRun inFlow rest

/-- The empty lines after a break in a plain scalar. Nothing comes back where a document ends. -/
def plainBreaks : Nat → Cursor → Option (List Char) × Cursor
  | 0, c => (some [], c)
  | turns + 1, c =>
    if c.isAt ' ' then plainBreaks turns c.next
    else
      match c.lineBreak? with
      | none => (some [], c)
      | some (b, c) =>
        if c.isDocumentMark then (none, c)
        else
          let (breaks, c) := plainBreaks turns c
          (breaks.map (b :: ·), c)

/-- What stands between two runs of a plain scalar: the text it folds into, whether it holds a line
break, and the place after it. -/
def plainGap (c : Cursor) : List Char × Bool × Cursor :=
  let (spaces, c) := c.span (· = ' ')
  match c.lineBreak? with
  | none => (spaces, false, c)
  | some (b, c) =>
    if c.isDocumentMark then ([], true, c)
    else
      match plainBreaks c.rest.length c with
      | (none, c) => ([], true, c)
      | (some breaks, c) => (fold b breaks, true, c)

/-- A plain scalar, whether a line break follows its last run, and the place after it. `gap` is
what stands before the next run. In block context the scalar ends with its indentation. -/
def plain (inFlow : Bool) (indent : Nat) (gap : List Char) (broken : Bool) :
    Nat → Cursor → List Char × Bool × Cursor
  | 0, c => ([], broken, c)
  | turns + 1, c =>
    let run := if c.isAt '#' then [] else plainRun inFlow c.rest
    if run.isEmpty then ([], broken, c)
    else
      let (nextGap, nextBroken, after) := plainGap (c.skip run.length)
      if nextGap.isEmpty || after.isAt '#' || (!inFlow && after.column < indent) then
        (gap ++ run, nextBroken, after)
      else
        let (more, lastBroken, final) := plain inFlow indent nextGap nextBroken turns after
        (gap ++ run ++ more, lastBroken, final)

/-! ### Quoted scalars -/

/-- The empty lines after a break in a quoted scalar. No document may end there. -/
def quotedBreaks : Nat → Cursor → Except Error (List Char × Cursor)
  | 0, c => .ok ([], c)
  | turns + 1, c =>
    if c.isDocumentMark then .error .token
    else
      let (_, c) := c.span fun d => d = ' ' || d = '\t'
      match c.lineBreak? with
      | none => .ok ([], c)
      | some (b, c) => do
        let (breaks, c) ← quotedBreaks turns c
        return (b :: breaks, c)

def quotedGap (c : Cursor) : Except Error (List Char × Cursor) :=
  let (spaces, c) := c.span fun d => d = ' ' || d = '\t'
  match c.lineBreak? with
  | none => if c.rest.isEmpty then .error .token else .ok (spaces, c)
  | some (b, c) => do
    let (breaks, c) ← quotedBreaks (c.rest.length + 1) c
    return (fold b breaks, c)

def escaped? : Char → Option Char
  | '0' => some '\x00'
  | 'a' => some '\x07'
  | 'b' => some '\x08'
  | 't' => some '\t'
  | '\t' => some '\t'
  | 'n' => some '\n'
  | 'v' => some '\x0b'
  | 'f' => some '\x0c'
  | 'r' => some '\r'
  | 'e' => some '\x1b'
  | ' ' => some ' '
  | '"' => some '"'
  | '\\' => some '\\'
  | '/' => some '/'
  | 'N' => some '\u0085'
  | '_' => some '\u00a0'
  | 'L' => some '\u2028'
  | 'P' => some '\u2029'
  | _ => none

def escapeWidth? : Char → Option Nat
  | 'x' => some 2
  | 'u' => some 4
  | 'U' => some 8
  | _ => none

/-- The character with the given code; surrogates are replaced. -/
def charOf (code : Nat) : Except Error Char :=
  if 0x10FFFF < code then .error .value
  else if 0xD800 ≤ code ∧ code < 0xE000 then .ok '\uFFFD'
  else .ok (Char.ofNat code)

def escape (c : Cursor) : Except Error (List Char × Cursor) :=
  match c.peek with
  | none => .error .token
  | some d =>
    match escaped? d, escapeWidth? d, c.lineBreak? with
    | some e, _, _ => .ok ([e], c.next)
    | none, some width, _ =>
      let digits := c.next.rest.take width
      match Text.hexNumber? digits with
      | some code =>
        if digits.length = width then do
          return ([← charOf code], c.next.skip width)
        else .error .token
      | none => .error .token
    | none, none, some (_, c) => quotedBreaks (c.rest.length + 1) c
    | none, none, none => .error .token

/-- The text of a quoted scalar behind its opening mark, and the place after its closing mark. -/
def quoted (double : Bool) : Nat → Cursor → Except Error (List Char × Cursor)
  | 0, _ => .error .token
  | turns + 1, c =>
    match c.peek with
    | none => .error .token
    | some d =>
      if d = (if double then '"' else '\'') then
        if !double && c.peek 1 = some '\'' then do
          let (more, final) ← quoted double turns (c.skip 2)
          return ('\'' :: more, final)
        else .ok ([], c.next)
      else if double && d = '\\' then do
        let (text, c) ← escape c.next
        let (more, final) ← quoted double turns c
        return (text ++ more, final)
      else if isSpace d then do
        let (text, c) ← quotedGap c
        let (more, final) ← quoted double turns c
        return (text ++ more, final)
      else do
        let (more, final) ← quoted double turns c.next
        return (d :: more, final)

/-! ### Block scalars -/

/-- What happens to the line breaks at the end of a block. -/
inductive Chomping where
  | strip
  | clip
  | keep
deriving DecidableEq

def chomping? (c : Cursor) : Option (Chomping × Cursor) :=
  match c.peek with
  | some '+' => some (.keep, c.next)
  | some '-' => some (.strip, c.next)
  | _ => none

/-- The indentation mark, if there is one. Zero is none. -/
def indentation? (c : Cursor) : Except Error (Option Nat × Cursor) :=
  match c.peek with
  | some d =>
    if d = '0' then .error .token
    else if d.isDigit then .ok (some (d.toNat - '0'.toNat), c.next)
    else .ok (none, c)
  | none => .ok (none, c)

def blockMarks (c : Cursor) : Except Error (Chomping × Option Nat × Cursor) := do
  match chomping? c with
  | some (chomping, c) =>
    let (indent, c) ← indentation? c
    return (chomping, indent, c)
  | none =>
    let (indent, c) ← indentation? c
    match indent, chomping? c with
    | some _, some (chomping, c) => return (chomping, indent, c)
    | _, _ => return (.clip, indent, c)

/-- The empty lines before a block, and the greatest column among them and the first line. -/
def blockIndentation (widest : Nat) : Nat → Cursor → List Char × Nat × Cursor
  | 0, c => ([], widest, c)
  | turns + 1, c =>
    if c.isAt ' ' then blockIndentation (max widest c.next.column) turns c.next
    else
      match c.lineBreak? with
      | none => ([], widest, c)
      | some (b, c) =>
        let (breaks, widest, final) := blockIndentation widest turns c
        (b :: breaks, widest, final)

/-- The place after at most as many spaces as the indentation asks for. -/
def skipIndent (indent : Nat) (c : Cursor) : Cursor :=
  c.skip (min (indent - c.column) (c.rest.takeWhile (· = ' ')).length)

def blockBreaks (indent : Nat) : Nat → Cursor → List Char × Cursor
  | 0, c => ([], c)
  | turns + 1, c =>
    let c := skipIndent indent c
    match c.lineBreak? with
    | none => ([], c)
    | some (b, c) =>
      let (breaks, final) := blockBreaks indent turns c
      (b :: breaks, final)

/-- Whether a line begins here that is not indented further. -/
def startsFlush (c : Cursor) : Bool := !(c.isAt ' ' || c.isAt '\t')

/-- The lines of a block: their text, the last line break, the empty lines after it, and the place
after them. -/
def blockLines (folded : Bool) (indent : Nat) (breaks : List Char) (last : List Char) :
    Nat → Cursor → List Char × List Char × List Char × Cursor
  | 0, c => ([], last, breaks, c)
  | turns + 1, c =>
    if c.column ≠ indent || c.rest.isEmpty then ([], last, breaks, c)
    else
      let flush := startsFlush c
      let (line, c) := c.span (!isBreak ·)
      let (lineBreak, c) :=
        match c.lineBreak? with
        | some (b, c) => ([b], c)
        | none => ([], c)
      let (nextBreaks, c) := blockBreaks indent (c.rest.length + 1) c
      let text := breaks ++ line
      if c.column = indent && !c.rest.isEmpty then
        let joint :=
          if folded && lineBreak = ['\n'] && flush && startsFlush c then
            if nextBreaks.isEmpty then [' '] else []
          else lineBreak
        let (more, lastBreak, lastBreaks, final) :=
          blockLines folded indent nextBreaks lineBreak turns c
        (text ++ joint ++ more, lastBreak, lastBreaks, final)
      else (text, lineBreak, nextBreaks, c)

/-- A block scalar behind its mark, in a context indented by `parent` columns. -/
def block (folded : Bool) (parent : Nat) (c : Cursor) : Except Error (List Char × Cursor) := do
  let (chomping, mark, c) ← blockMarks c
  let c ← (if endOr isSpace c.peek && !c.isAt '\t' then c.endLine else .error .token)
  let least := max parent 1
  let (breaks, indent, c) :=
    match mark with
    | some n =>
      let indent := least + n - 1
      let (breaks, c) := blockBreaks indent (c.rest.length + 1) c
      (breaks, indent, c)
    | none =>
      let (breaks, widest, c) := blockIndentation 0 c.rest.length c
      (breaks, max least widest, c)
  let (text, last, trailing, c) := blockLines folded indent breaks [] (c.rest.length + 1) c
  return (match chomping with
    | .strip => (text, c)
    | .clip => (text ++ last, c)
    | .keep => (text ++ last ++ trailing, c))

end RegistryBlock.Yaml
