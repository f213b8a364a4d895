import RegistryBlock.Decimal.Binary
import RegistryBlock.Yaml.Basic
import RegistryBlock.Yaml.Node

/-!
# The value of a node

The reader that the program comes with. The entries that a mapping merges in come before its own,
and later ones go before earlier ones with the same key. Dates, sets and what else settings have no
use for are checked and then become `other`.
-/

namespace RegistryBlock.Yaml

namespace Value

/-! ### Scalars -/

def splitSign (cs : List Char) : Bool × List Char :=
  match cs with
  | '-' :: rest => (true, rest)
  | '+' :: rest => (false, rest)
  | _ => (false, cs)

def digit? (base : Nat) (c : Char) : Option Nat := (Text.hexValue? c).filter (· < base)

def natural? (base : Nat) (cs : List Char) : Option Nat :=
  if cs.isEmpty then none
  else cs.foldlM (fun n c => (digit? base c).map (base * n + ·)) 0

def naturalOf? (cs : List Char) : Option Nat :=
  match cs with
  | ['0'] => some 0
  | '0' :: 'b' :: ds => natural? 2 ds
  | '0' :: 'o' :: ds | '0' :: 'O' :: ds => natural? 8 ds
  | '0' :: 'x' :: ds => natural? 16 ds
  | '0' :: _ => natural? 8 cs
  | _ => do
    let parts ← (Text.split ':' cs).mapM (natural? 10)
    return parts.foldl (fun n part => 60 * n + part) 0

def ofInt (text : String) : Except Error Value :=
  let (negative, cs) := splitSign (text.toList.filter (· ≠ '_'))
  match naturalOf? cs with
  | some n => .ok (.int (if negative then -(n : Int) else n))
  | none => .error .value

/-- A number with a point, an exponent or both, without sign. -/
def decimal? (cs : List Char) : Option Float := do
  let (mantissa, power) :=
    match Text.cutAt 'e' (cs.map Char.toLower) with
    | (mantissa, power) => (mantissa, power)
  let (whole, part) :=
    match Text.cutAt '.' mantissa with
    | (whole, part) => (whole, part.getD [])
  let n ← natural? 10 (whole ++ part)
  let exponent : Int ←
    match power with
    | none => some 0
    | some power =>
      let (negative, ds) := splitSign power
      (natural? 10 ds).map fun e => if negative then -(e : Int) else e
  return Decimal.Scientific.toFloat ⟨n, exponent - part.length⟩

def sixties (parts : List Float) : Float :=
  (parts.reverse.foldl (fun (sum, base) part => (sum + part * base, base * 60.0)) (0.0, 1.0)).1

/-- A number with a point, with a name, or in parts of sixty. -/
def ofFloat (text : String) : Except Error Value :=
  let (negative, cs) := splitSign ((text.toList.filter (· ≠ '_')).map Char.toLower)
  let unsigned :=
    if cs = ".inf".toList then some (1.0 / 0.0)
    else if cs = ".nan".toList then some (0.0 / 0.0)
    else ((Text.split ':' cs).mapM decimal?).map fun
      | [x] => x
      | parts => sixties parts
  match unsigned with
  | some x => .ok (.float (if negative then -x else x))
  | none => .error .value

def daysIn (year month : Nat) : Nat :=
  if month = 2 then
    if year % 4 = 0 ∧ (year % 100 ≠ 0 ∨ year % 400 = 0) then 29 else 28
  else if [4, 6, 9, 11].contains month then 30
  else 31

def isMoment (m : Tag.Moment) : Bool :=
  let number (cs : List Char) : Nat := (natural? 10 cs).getD 0
  let year := number m.year
  let month := number m.month
  let day := number m.day
  1 ≤ year && 1 ≤ month && month ≤ 12 && 1 ≤ day && day ≤ daysIn year month &&
    number m.hour < 24 && number m.minute < 60 && number m.second < 60 &&
    number m.zoneHour * 60 + number m.zoneMinute < 1440

def ofTimestamp (text : String) : Except Error Value :=
  match Tag.moment? text.toList with
  | some m => if isMoment m then .ok .other else .error .value
  | none => .error .value

def sextet? (c : Char) : Option Nat :=
  if c.isUpper then some (c.toNat - 'A'.toNat)
  else if c.isLower then some (c.toNat - 'a'.toNat + 26)
  else if c.isDigit then some (c.toNat - '0'.toNat + 52)
  else if c = '+' then some 62
  else if c = '/' then some 63
  else none

/-- The bytes of groups of four letters. The last group may be shorter by its padding. -/
def octets : List Nat → Option (List UInt8)
  | a :: b :: c :: d :: rest =>
    let n := ((a * 64 + b) * 64 + c) * 64 + d
    (octets rest).map fun bytes =>
      UInt8.ofNat (n / 65536) :: UInt8.ofNat (n / 256) :: UInt8.ofNat n :: bytes
  | [a, b, c] =>
    let n := (a * 64 + b) * 64 + c
    some [UInt8.ofNat (n / 1024), UInt8.ofNat (n / 4)]
  | [a, b] => some [UInt8.ofNat ((a * 64 + b) / 16)]
  | [_] => none
  | [] => some []

/-- Bytes in base 64. Other characters are passed over, and the padding has to be there. -/
def ofBinary (text : String) : Except Error Value :=
  let cs := text.toList
  let letters := (cs.takeWhile (· ≠ '=')).filterMap sextet?
  let padding := (cs.dropWhile (· ≠ '=')).count '='
  let padded := letters.length % 4 = 0 || 4 ≤ letters.length % 4 + padding
  match octets letters with
  | some l => if cs.all (·.toNat < 128) && padded then .ok (.bytes l) else .error .tag
  | none => .error .tag

def ofScalar (tag text : String) : Except Error Value :=
  if tag = Tag.str then .ok (.str text)
  else if tag = Tag.null then .ok .null
  else if tag = Tag.bool then
    match text.toLower with
    | "yes" | "true" | "on" => .ok (.bool true)
    | "no" | "false" | "off" => .ok (.bool false)
    | _ => .error .value
  else if tag = Tag.int then ofInt text
  else if tag = Tag.float then ofFloat text
  else if tag = Tag.timestamp then ofTimestamp text
  else if tag = Tag.core "binary" then ofBinary text
  else .error .tag

/-! ### Collections -/

def isMerge : Node → Bool
  | .scalar tag _ => tag = Tag.merge
  | _ => false

/-- A key, where the mark of a default value is text. -/
def keyNode : Node → Node
  | .scalar tag text => .scalar (if tag = Tag.value then Tag.str else tag) text
  | node => node

mutual

def flatten : Nat → List (Node × Node) → Except Error (List (Node × Node))
  | 0, _ => .error .shape
  | depth + 1, entries => do
    let merged ← (entries.filter (isMerge ·.1)).mapM fun (_, source) => mergedEntries depth source
    return merged.flatten ++ entries.filter (!isMerge ·.1)

/-- The entries that a node gives to a mapping which merges it in. Of several mappings the first
goes before the others. -/
def mergedEntries : Nat → Node → Except Error (List (Node × Node))
  | 0, _ => .error .shape
  | depth + 1, source =>
    match source with
    | .map _ entries => flatten depth entries
    | .loop => .ok []
    | .seq _ items => do
      let parts ← items.mapM fun
        | .map _ entries => flatten depth entries
        | .loop => .ok []
        | _ => .error .tag
      return parts.reverse.flatten
    | .scalar _ _ => .error .tag

end

/-- Whether a node can be the key of a mapping. No collection can. -/
def canBeKey : Node → Bool
  | .scalar _ _ => true
  | _ => false

def isPair : Node → Bool
  | .map _ [_] => true
  | _ => false

def ofNode : Nat → Node → Except Error Value
  | 0, _ => .error .shape
  | depth + 1, node =>
    let pairs (entries : List (Node × Node)) : Except Error (List (Value × Value)) := do
      let entries ← flatten depth entries
      entries.mapM fun (key, value) => do
        if !canBeKey key then throw .key
        return (← ofNode depth (keyNode key), ← ofNode depth value)
    match node with
    | .loop => .ok (.seq [])
    | .scalar tag text => ofScalar tag text
    | .seq tag items =>
      if tag = Tag.seq then do return .seq (← items.mapM (ofNode depth))
      else if tag = Tag.core "omap" ∨ tag = Tag.core "pairs" then
        if items.all isPair then do
          let _ ← items.mapM fun
            | .map _ entries => entries.mapM fun (key, value) => do
              let _ ← ofNode depth key
              ofNode depth value
            | _ => throw .tag
          return .seq []
        else .error .tag
      else .error .tag
    | .map tag entries =>
      if tag = Tag.map then do return .map (← pairs entries)
      else if tag = Tag.core "set" then do
        let _ ← pairs entries
        return .other
      else .error .tag

end Value

def Node.depth : Node → Nat
  | .scalar _ _ => 1
  | .loop => 1
  | .seq _ items => depths items + 1
  | .map _ entries => entryDepths entries + 1
where
  /-- The greatest depth among some nodes. -/
  depths : List Node → Nat
    | [] => 0
    | node :: rest => max node.depth (depths rest)
  /-- The greatest depth among the keys and values of some entries. -/
  entryDepths : List (Node × Node) → Nat
    | [] => 0
    | (key, value) :: rest => max (max key.depth value.depth) (entryDepths rest)

/-- The value of the document in a text, which is nothing if there is none. -/
def parse (text : String) : Except Error Value := do
  match ← Node.ofTokens? (← Token.ofText text.toList) with
  | none => return .null
  | some node => Value.ofNode (2 * node.depth + 2) node

def Error.refusal : Error → Refusal
  | value => .scalar
  | _ => .malformed none

def reader : Reader := fun text => (parse text).mapError Error.refusal

end RegistryBlock.Yaml
