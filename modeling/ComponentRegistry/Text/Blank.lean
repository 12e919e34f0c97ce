/-!
# Blank characters

The characters of Unicode's White_Space property, and trimming by them.  Configuration values are
blank-tested with this class, so a no-break or an ideographic space counts as empty.
-/

namespace ComponentRegistry.Text

/-- The White_Space property. -/
def isBlank (c : Char) : Bool :=
  let n := c.toNat
  (9 ≤ n && n ≤ 13) || n == 0x20 || n == 0x85 || n == 0xA0 || n == 0x1680 ||
    (0x2000 ≤ n && n ≤ 0x200A) || n == 0x2028 || n == 0x2029 || n == 0x202F || n == 0x205F ||
    n == 0x3000

/-- The text without its leading blanks. -/
def trimStart (cs : List Char) : List Char := cs.dropWhile isBlank

/-- The text without its leading and trailing blanks. -/
def trim (cs : List Char) : List Char := (trimStart (trimStart cs).reverse).reverse

/-- Nothing is left of `s` after trimming. -/
def isBlankText (s : String) : Bool := s.toList.all isBlank

end ComponentRegistry.Text
