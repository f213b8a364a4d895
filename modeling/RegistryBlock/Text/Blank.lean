import RegistryBlock.Text.Basic

/-!
# Blank characters

The characters that count as white space in program text: those with the Unicode property
White_Space, together with the four information separators U+001C to U+001F.
-/

namespace RegistryBlock.Text

def isBlank (c : Char) : Bool :=
  let n := c.toNat
  (9 ≤ n && n ≤ 13) || (28 ≤ n && n ≤ 32) || n == 0x85 || n == 0xA0 || n == 0x1680 ||
    (0x2000 ≤ n && n ≤ 0x200A) || n == 0x2028 || n == 0x2029 || n == 0x202F || n == 0x205F ||
    n == 0x3000

def trim (cs : List Char) : List Char := trimBy isBlank cs

def trimmed (s : String) : String := String.ofList (trim s.toList)

end RegistryBlock.Text
