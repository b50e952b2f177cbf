/-! # Blank characters

The characters that trimming removes: all white space of Unicode, and the four ASCII separators
`0x1C … 0x1F`.

`DependencyParser._parse_at` trims paths and literals in this way.
-/

namespace Injection

/-- Whether trimming removes `c`. -/
def isBlank (c : Char) : Bool :=
  let n := c.toNat
  (0x09 ≤ n && n ≤ 0x0D) || (0x1C ≤ n && n ≤ 0x20) || n = 0x85 || n = 0xA0 || n = 0x1680 ||
    (0x2000 ≤ n && n ≤ 0x200A) || n = 0x2028 || n = 0x2029 || n = 0x202F || n = 0x205F || n = 0x3000

/-- Remove blank characters from both ends. -/
def trim (cs : List Char) : List Char :=
  ((cs.dropWhile isBlank).reverse.dropWhile isBlank).reverse

end Injection
