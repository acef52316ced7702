/-!
# White space

The characters with the White_Space property, and trimming by them.
-/

namespace LintTypes.Blank

/-- Whether the character is white space of some script. -/
def isBlank (c : Char) : Bool :=
  let code := c.toNat
  (0x09 ≤ code && code ≤ 0x0D) || code == 0x20 || code == 0x85 || code == 0xA0 || code == 0x1680
    || (0x2000 ≤ code && code ≤ 0x200A) || code == 0x2028 || code == 0x2029 || code == 0x202F
    || code == 0x205F || code == 0x3000

/-- `text` without the white space at its end. -/
def trimEnd (text : List Char) : List Char := (text.reverse.dropWhile isBlank).reverse

/-- `text` without the white space at both ends. -/
def trim (text : List Char) : List Char := trimEnd (text.dropWhile isBlank)

end LintTypes.Blank
