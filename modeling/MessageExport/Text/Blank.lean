/-!
# MessageExport.Text.Blank

**Blank characters**: those with the property `White_Space` of the Unicode
standard, which is wider than the four blanks that JSON allows between tokens.
-/

namespace MessageExport.Text

/-- Whether a character has the property `White_Space`. -/
def isBlank (c : Char) : Bool :=
  let n := c.toNat
  (0x09 ≤ n && n ≤ 0x0D) || n == 0x20 || n == 0x85 || n == 0xA0 || n == 0x1680 ||
    (0x2000 ≤ n && n ≤ 0x200A) || n == 0x2028 || n == 0x2029 || n == 0x202F ||
    n == 0x205F || n == 0x3000

/-- The text after its leading blanks. -/
def trimLeft (s : List Char) : List Char :=
  s.dropWhile isBlank

@[simp] theorem trimLeft_nil : trimLeft [] = [] := rfl

end MessageExport.Text
