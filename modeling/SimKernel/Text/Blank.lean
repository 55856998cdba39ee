/-!
# White space

The characters with the Unicode property White_Space, and texts without them at either end.
-/

namespace SimKernel.Text

/-- Characters with the Unicode property White_Space. -/
def isBlank (c : Char) : Bool :=
  let n := c.toNat
  (9 ≤ n && n ≤ 13) || n == 0x20 || n == 0x85 || n == 0xa0 || n == 0x1680 || (0x2000 ≤ n && n ≤ 0x200a) ||
    n == 0x2028 || n == 0x2029 || n == 0x202f || n == 0x205f || n == 0x3000

/-- The text without the blanks at its end. -/
def trimRight (s : List Char) : List Char :=
  (s.reverse.dropWhile isBlank).reverse

/-- The text without the blanks at its beginning and end. -/
def trim (s : List Char) : List Char :=
  trimRight (s.dropWhile isBlank)

end SimKernel.Text
