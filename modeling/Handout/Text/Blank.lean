/-
  Handout.Text.Blank — white space and trimming. White space is the Unicode property
  White_Space: the separators and U+0009 to U+000D, but not U+001C to U+001F.
-/

namespace Handout.Text

/-- White_Space. -/
def isBlank (c : Char) : Bool :=
  let n := c.toNat
  (0x09 ≤ n && n ≤ 0x0d) || n == 0x20 || n == 0x85 || n == 0xa0 || n == 0x1680 ||
    (0x2000 ≤ n && n ≤ 0x200a) || n == 0x2028 || n == 0x2029 || n == 0x202f || n == 0x205f || n == 0x3000

def trimStart (cs : List Char) : List Char := cs.dropWhile isBlank

def trimEnd (cs : List Char) : List Char := (cs.reverse.dropWhile isBlank).reverse

/-- Without the white space at both ends. -/
def trim (cs : List Char) : List Char := trimEnd (trimStart cs)

end Handout.Text
