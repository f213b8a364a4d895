import RegistryBlock.Json.Basic
import RegistryBlock.Text.Basic
import RegistryBlock.Text.Hex
import RegistryBlock.Decimal.Binary

/-!
# Reading JSON

A strict reader for JSON text, which also takes `NaN`, `Infinity` and `-Infinity`. Each reader
consumes the front of a character list and returns what it read with the rest. A failure keeps the
rest at which it arose, so that its place in the text is known from the lengths alone.
-/

namespace RegistryBlock.Json

/-- Why a text is not JSON. -/
inductive Fault where
  | value
  | propertyName
  | colon
  | comma
  | extra
  | unterminated
  | control
  | escape
  | unicodeEscape
  | byteOrderMark
deriving DecidableEq, Repr

def Fault.message : Fault → String
  | value => "Expecting value"
  | propertyName => "Expecting property name enclosed in double quotes"
  | colon => "Expecting ':' delimiter"
  | comma => "Expecting ',' delimiter"
  | extra => "Extra data"
  | unterminated => "Unterminated string starting at"
  | control => "Invalid control character at"
  | escape => "Invalid \\escape"
  | unicodeEscape => "Invalid \\uXXXX escape"
  | byteOrderMark => "Unexpected UTF-8 BOM (decode using utf-8-sig)"

/-- A fault with the text from the place where it arose. -/
structure Failure where
  fault : Fault
  rest : List Char
deriving DecidableEq, Repr

/-- A fault with its place in the whole text: line and column count from one. -/
structure Error where
  fault : Fault
  line : Nat
  column : Nat
  offset : Nat
deriving DecidableEq, Repr

def Failure.locate (failure : Failure) (text : List Char) : Error :=
  let before := text.take (text.length - failure.rest.length)
  { fault := failure.fault
    line := before.count '\n' + 1
    column := (before.reverse.takeWhile (· != '\n')).length + 1
    offset := before.length }

def Error.message (e : Error) : String :=
  e.fault.message ++ ": line " ++ toString e.line ++ " column " ++ toString e.column ++
    " (char " ++ toString e.offset ++ ")"

def isSpace (c : Char) : Bool := c = ' ' || c = '\t' || c = '\n' || c = '\r'

def skipSpace (cs : List Char) : List Char := cs.dropWhile isSpace

def unescape? : Char → Option Char
  | '"' => some '"'
  | '\\' => some '\\'
  | '/' => some '/'
  | 'b' => some '\x08'
  | 'f' => some '\x0c'
  | 'n' => some '\n'
  | 'r' => some '\r'
  | 't' => some '\t'
  | _ => none

/-- The number written by the four digits of a Unicode escape, with the rest, which is not empty
since the string has to be closed. The text starts at the letter of the escape. -/
def unicodeUnit (mark : List Char) : Except Failure (Nat × List Char) :=
  match mark with
  | _ :: a :: b :: c :: d :: rest =>
    match rest with
    | [] => .error ⟨.unicodeEscape, mark⟩
    | _ :: _ =>
      match Text.hexNumber? [a, b, c, d] with
      | some n => .ok (n, rest)
      | none => .error ⟨.unicodeEscape, mark⟩
  | _ => .error ⟨.unicodeEscape, mark⟩

/-- A Unicode escape, with a second one when the two form a surrogate pair. A surrogate without
its partner has no place in a `String` and becomes the replacement character, so two names that
differ only there are read as one. -/
def unicodeEscape (mark : List Char) : Except Failure (Char × List Char) := do
  let (unit, rest) ← unicodeUnit mark
  if 0xD800 ≤ unit ∧ unit < 0xDC00 then
    match rest with
    | '\\' :: 'u' :: more =>
      if rest.length ≤ 6 then return ('\uFFFD', rest)
      else
        let (low, after) ← unicodeUnit ('u' :: more)
        if 0xDC00 ≤ low ∧ low < 0xE000 then
          return (Char.ofNat (0x10000 + (unit - 0xD800) * 0x400 + (low - 0xDC00)), after)
        else return ('\uFFFD', rest)
    | _ => return ('\uFFFD', rest)
  else if 0xDC00 ≤ unit ∧ unit < 0xE000 then return ('\uFFFD', rest)
  else return (Char.ofNat unit, rest)

/-- The characters of a string up to its closing mark. `opened` starts at the opening mark. Each
turn reads a character or an escape, so as many turns as there are characters are enough. -/
def stringBody (opened : List Char) : Nat → List Char → Except Failure (List Char × List Char)
  | 0, _ => .error ⟨.unterminated, opened⟩
  | turns + 1, cs =>
    match cs with
    | [] => .error ⟨.unterminated, opened⟩
    | '"' :: rest => .ok ([], rest)
    | ['\\'] => .error ⟨.unterminated, opened⟩
    | '\\' :: 'u' :: more => do
      let (c, rest) ← unicodeEscape ('u' :: more)
      let (tail, after) ← stringBody opened turns rest
      return (c :: tail, after)
    | '\\' :: e :: rest =>
      match unescape? e with
      | none => .error ⟨.escape, cs⟩
      | some c => do
        let (tail, after) ← stringBody opened turns rest
        return (c :: tail, after)
    | c :: rest =>
      if c.toNat ≤ 0x1F then .error ⟨.control, cs⟩
      else do
        let (tail, after) ← stringBody opened turns rest
        return (c :: tail, after)

/-- A string, from its opening mark on. -/
def string (cs : List Char) : Except Failure (String × List Char) := do
  let (body, rest) ← stringBody cs cs.length (cs.drop 1)
  return (String.ofList body, rest)

def digits (cs : List Char) : List Char × List Char :=
  (cs.takeWhile Char.isDigit, cs.dropWhile Char.isDigit)

def natOf (ds : List Char) : Nat := ds.foldl (fun n c => 10 * n + (c.toNat - '0'.toNat)) 0

/-- The digits of a fraction, none unless a digit follows the point. -/
def fraction (cs : List Char) : List Char × List Char :=
  match cs with
  | '.' :: rest => if (digits rest).1 = [] then ([], cs) else digits rest
  | _ => ([], cs)

def exponent? (cs : List Char) : Option (Int × List Char) :=
  match cs with
  | e :: rest =>
    if e = 'e' ∨ e = 'E' then
      let (negative, after) :=
        match rest with
        | '-' :: more => (true, more)
        | '+' :: more => (false, more)
        | _ => (false, rest)
      let (ds, final) := digits after
      if ds = [] then none
      else some (if negative then -(natOf ds : Int) else natOf ds, final)
    else none
  | [] => none

/-- A number without its sign. The text does not begin with a digit if the whole part is empty. -/
def unsigned (negative : Bool) (whole rest : List Char) : Value × List Char :=
  let (part, afterPart) := fraction rest
  match part, exponent? afterPart with
  | [], none =>
    (.int (if negative then -(natOf whole : Int) else natOf whole), afterPart)
  | _, power =>
    let (e, final) := power.getD (0, afterPart)
    let x := Decimal.Scientific.toFloat ⟨natOf (whole ++ part), e - part.length⟩
    (.float (if negative then -x else x), final)

/-- A number, from its sign or first digit on. -/
def number (cs : List Char) : Except Failure (Value × List Char) :=
  let (negative, body) :=
    match cs with
    | '-' :: rest => (true, rest)
    | _ => (false, cs)
  match body with
  | '0' :: rest => .ok (unsigned negative ['0'] rest)
  | _ =>
    match digits body with
    | ([], _) => .error ⟨.value, cs⟩
    | (whole, rest) => .ok (unsigned negative whole rest)

def words : List (List Char × Value) :=
  [("null".toList, .null), ("true".toList, .bool true), ("false".toList, .bool false),
   ("NaN".toList, .float (0.0 / 0.0)), ("Infinity".toList, .float (1.0 / 0.0)),
   ("-Infinity".toList, .float (-1.0 / 0.0))]

def word? (cs : List Char) : Option (Value × List Char) :=
  words.findSome? fun (w, v) => (Text.dropFront? w cs).map fun rest => (v, rest)

mutual

/-- A value at the front of a text. Values nest at most as deep as the text is long. -/
def value : Nat → List Char → Except Failure (Value × List Char)
  | 0, cs => .error ⟨.value, cs⟩
  | depth + 1, cs =>
    match cs with
    | '"' :: _ => do
      let (s, rest) ← string cs
      return (.str s, rest)
    | '{' :: rest =>
      match skipSpace rest with
      | '}' :: after => .ok (.obj [], after)
      | inner => do
        let (members, after) ← entries depth [] inner
        return (.obj members, after)
    | '[' :: rest =>
      match skipSpace rest with
      | ']' :: after => .ok (.arr [], after)
      | inner => do
        let (items, after) ← elements depth inner
        return (.arr items, after)
    | _ =>
      match word? cs with
      | some found => .ok found
      | none => number cs

/-- The members of an object, from a key on to the closing brace, added to those before them. -/
def entries : Nat → List (String × Value) → List Char →
    Except Failure (List (String × Value) × List Char)
  | 0, _, cs => .error ⟨.value, cs⟩
  | depth + 1, before, cs =>
    match cs with
    | '"' :: _ => do
      let (key, afterKey) ← string cs
      match skipSpace afterKey with
      | ':' :: afterColon =>
        let (v, afterValue) ← value depth (skipSpace afterColon)
        match skipSpace afterValue with
        | '}' :: rest => return (put before key v, rest)
        | ',' :: rest => entries depth (put before key v) (skipSpace rest)
        | other => .error ⟨.comma, other⟩
      | other => .error ⟨.colon, other⟩
    | _ => .error ⟨.propertyName, cs⟩

def elements : Nat → List Char → Except Failure (List Value × List Char)
  | 0, cs => .error ⟨.value, cs⟩
  | depth + 1, cs => do
    let (v, afterValue) ← value depth cs
    match skipSpace afterValue with
    | ']' :: rest => return ([v], rest)
    | ',' :: rest =>
      let (vs, after) ← elements depth (skipSpace rest)
      return (v :: vs, after)
    | other => .error ⟨.comma, other⟩

end

def document (cs : List Char) : Except Failure Value := do
  match cs with
  | '\uFEFF' :: _ => throw ⟨.byteOrderMark, cs⟩
  | _ =>
    let (v, rest) ← value (cs.length + 1) (skipSpace cs)
    match skipSpace rest with
    | [] => return v
    | extra => throw ⟨.extra, extra⟩

def parse (text : String) : Except Error Value :=
  match document text.toList with
  | .ok v => .ok v
  | .error failure => .error (failure.locate text.toList)

end RegistryBlock.Json
