/-!
# White space

`isSpace` is the Unicode property `White_Space`, which is what surrounds a text that `trim`
strips. Main statement : every character that counts as white space in ASCII texts does so
here (`isSpace_of_isWhitespace`).
-/

namespace PolicyLint.Text

/-- Whether a character has the Unicode property `White_Space`. -/
def isSpace (c : Char) : Bool :=
  let n := c.toNat
  (0x09 ≤ n && n ≤ 0x0D) || n == 0x20 || n == 0x85 || n == 0xA0 || n == 0x1680
    || (0x2000 ≤ n && n ≤ 0x200A) || n == 0x2028 || n == 0x2029 || n == 0x202F || n == 0x205F
    || n == 0x3000

/-- White space of ASCII is white space. -/
theorem isSpace_of_isWhitespace {c : Char} (h : c.isWhitespace) : isSpace c := by
  simp only [Char.isWhitespace, Bool.or_eq_true, decide_eq_true_eq] at h
  rcases h with ((rfl | rfl) | rfl) | rfl <;> decide

/-- A text without white space at its start. -/
def trimStart (text : List Char) : List Char :=
  text.dropWhile isSpace

/-- A text without white space at its end. -/
def trimEnd (text : List Char) : List Char :=
  (text.reverse.dropWhile isSpace).reverse

/-- A text without white space around it. -/
def trim (text : List Char) : List Char :=
  trimEnd (trimStart text)

/-- Whether there is nothing but white space in a text. -/
def isBlank (text : String) : Bool :=
  text.toList.all isSpace

end PolicyLint.Text
