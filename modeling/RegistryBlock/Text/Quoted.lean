import RegistryBlock.Text.Hex
import RegistryBlock.Text.Printable

/-!
# Quoted text in messages

A quoted text stands between apostrophes, or between quotation marks when it holds an apostrophe
and no quotation mark. The mark in use, the backslash and whatever cannot be shown are escaped.
-/

namespace RegistryBlock.Text

def quoteMark (cs : List Char) : Char :=
  if cs.contains '\'' && !cs.contains '"' then '"' else '\''

def escapeFor (mark c : Char) : List Char :=
  if c = mark ∨ c = '\\' then ['\\', c]
  else if c = '\n' then ['\\', 'n']
  else if c = '\r' then ['\\', 'r']
  else if c = '\t' then ['\\', 't']
  else if isPrintable c then [c]
  else if c.toNat < 0x100 then '\\' :: 'x' :: hexDigits 2 c.toNat
  else if c.toNat < 0x10000 then '\\' :: 'u' :: hexDigits 4 c.toNat
  else '\\' :: 'U' :: hexDigits 8 c.toNat

def quoted (s : String) : String :=
  let mark := quoteMark s.toList
  String.ofList (mark :: s.toList.flatMap (escapeFor mark) ++ [mark])

end RegistryBlock.Text
