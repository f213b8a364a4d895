import RegistryBlock.Json.Basic
import RegistryBlock.Text.Hex
import RegistryBlock.Decimal.Style

/-!
# Writing JSON

A value is written on one line, or over several with every level indented by the same number of
spaces. Characters beyond ASCII stand for themselves.
-/

namespace RegistryBlock.Json

/-- Numbers are written as short as possible; the values that are no finite numbers have names. -/
def numberStyle : Decimal.Style := { notANumber := "NaN", infinity := "Infinity" }

def escapeChar (c : Char) : List Char :=
  if c = '"' then ['\\', '"']
  else if c = '\\' then ['\\', '\\']
  else if c = '\n' then ['\\', 'n']
  else if c = '\r' then ['\\', 'r']
  else if c = '\t' then ['\\', 't']
  else if c = '\x08' then ['\\', 'b']
  else if c = '\x0c' then ['\\', 'f']
  else if c.toNat < 0x20 then '\\' :: 'u' :: Text.hexDigits 4 c.toNat
  else [c]

def quote (s : String) : List Char := '"' :: s.toList.flatMap escapeChar ++ ['"']

/-- How the parts of a value are laid out: on one line, or on lines that are indented by `width`
spaces a level. -/
inductive Layout where
  | line
  | lines (width : Nat)

namespace Layout

/-- What stands before the first part and after the last one, at the given level. -/
def newline : Layout → Nat → List Char
  | line, _ => []
  | lines width, level => '\n' :: List.replicate (width * level) ' '

def separator : Layout → Nat → List Char
  | line, _ => [',', ' ']
  | lines width, level => ',' :: newline (lines width) level

end Layout

def bracket (layout : Layout) (level : Nat) (opening closing : Char)
    (parts : List (List Char)) : List Char :=
  if parts.isEmpty then [opening, closing]
  else
    opening :: layout.newline (level + 1) ++
      (layout.separator (level + 1)).intercalate parts ++ layout.newline level ++ [closing]

def integer (n : Int) : List Char :=
  if n < 0 then '-' :: Decimal.digitChars n.natAbs else Decimal.digitChars n.natAbs

mutual

def write (layout : Layout) (level : Nat) : Value → List Char
  | .null => "null".toList
  | .bool true => "true".toList
  | .bool false => "false".toList
  | .int n => integer n
  | .float x => (numberStyle.render x).toList
  | .str s => quote s
  | .arr items => bracket layout level '[' ']' (writeItems layout (level + 1) items)
  | .obj members => bracket layout level '{' '}' (writeMembers layout (level + 1) members)

def writeItems (layout : Layout) (level : Nat) : List Value → List (List Char)
  | [] => []
  | v :: rest => write layout level v :: writeItems layout level rest

def writeMembers (layout : Layout) (level : Nat) : List (String × Value) → List (List Char)
  | [] => []
  | (key, v) :: rest =>
    (quote key ++ [':', ' '] ++ write layout level v) :: writeMembers layout level rest

end

def Value.render (layout : Layout) (v : Value) : String := String.ofList (write layout 0 v)

end RegistryBlock.Json
