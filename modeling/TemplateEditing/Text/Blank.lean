import TemplateEditing.Text.Rows

/-!
# Blank characters

The characters that Unicode gives the property `White_Space`, and cutting them off the ends of a
text.
-/

namespace TemplateEditing

namespace Text

/-- The character is white space. -/
def isBlank (c : Char) : Bool :=
  let n := c.val
  (0x9 ≤ n && n ≤ 0xD) || n == 0x20 || n == 0x85 || n == 0xA0 || n == 0x1680 ||
    (0x2000 ≤ n && n ≤ 0x200A) || n == 0x2028 || n == 0x2029 || n == 0x202F || n == 0x205F ||
    n == 0x3000

/-- The text without the blanks in front. -/
def trimStart (t : Text) : Text := t.dropWhile isBlank

/-- The longest end of a text whose characters all satisfy `p`. -/
def takeEndWhile (p : Char → Bool) (t : Text) : Text := (t.reverse.takeWhile p).reverse

/-- What stands before the longest end of a text whose characters all satisfy `p`. -/
def dropEndWhile (p : Char → Bool) (t : Text) : Text := (t.reverse.dropWhile p).reverse

/-- The text without the blanks at either end. -/
def trim (t : Text) : Text := dropEndWhile isBlank (trimStart t)

end Text

end TemplateEditing
