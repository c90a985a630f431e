import PolicyLint.Text.Size

/-!
# The characters of a YAML text

The classes of characters that the grammar of YAML tells apart, and `Cursor`, a place in a
text with the text that is left.

A text is read after its line breaks have been made uniform (`lineBreaks`) : a carriage
return, a carriage return with its line feed and a next-line character are a line feed, and
the two Unicode separators stay. From there on a line break is one character (`isBreak`).
-/

namespace PolicyLint.Yaml

/-! ## Classes of characters -/

/-- The characters a text may hold at all : tab, line breaks and everything printable. -/
def isAllowed (c : Char) : Bool :=
  let n := c.toNat
  n == 0x09 || n == 0x0A || n == 0x0D || (0x20 ≤ n && n ≤ 0x7E) || n == 0x85
    || (0xA0 ≤ n && n ≤ 0xD7FF) || (0xE000 ≤ n && n ≤ 0xFFFD) || 0x10000 ≤ n

/-- A space or a tab. -/
def isBlank (c : Char) : Bool :=
  c == ' ' || c == '\t'

/-- A line break, once line breaks are uniform. -/
def isBreak (c : Char) : Bool :=
  c == '\n' || c == '\u2028' || c == '\u2029'

/-- The characters of anchors, of tag handles and of directive names. -/
def isWord (c : Char) : Bool :=
  c.isAlphanum || c == '-' || c == '_'

/-- The characters that a tag may hold outside angle brackets. -/
def isUri (c : Char) : Bool :=
  isWord c || ";/?:@&=+$.%!~*'()".toList.contains c

/-- The characters that open, close or separate flow collections. -/
def isFlowIndicator (c : Char) : Bool :=
  c == ',' || c == '[' || c == ']' || c == '{' || c == '}'

/-- The characters that cannot begin a plain scalar, unless for `-`, `?` and `:` what
follows allows it. -/
def isIndicator (c : Char) : Bool :=
  "-?:,[]\x7b\x7d#&*!|>'\"%@\x60".toList.contains c

/-- The value of a hexadecimal digit. -/
def hexDigit? (c : Char) : Option Nat :=
  if c.isDigit then some (c.toNat - '0'.toNat)
  else if 'a' ≤ c ∧ c ≤ 'f' then some (c.toNat - 'a'.toNat + 10)
  else if 'A' ≤ c ∧ c ≤ 'F' then some (c.toNat - 'A'.toNat + 10)
  else none

/-- Whether `text` starts with a blank, with a line break, or is at its end. -/
def atGap : List Char → Bool
  | [] => true
  | c :: _ => isBlank c || isBreak c

/-- Whether `text` starts with a line break or is at its end. -/
def atLineEnd : List Char → Bool
  | [] => true
  | c :: _ => isBreak c

/-- Whether `text` starts with the three characters `---` or `...` and a gap. -/
def atDocumentMark : List Char → Bool
  | '-' :: '-' :: '-' :: text => atGap text
  | '.' :: '.' :: '.' :: text => atGap text
  | _ => false

/-- Make the line breaks of a text uniform. -/
def lineBreaks : List Char → List Char
  | [] => []
  | '\r' :: '\n' :: text => '\n' :: lineBreaks text
  | c :: text => (if c == '\r' || c == '\u0085' then '\n' else c) :: lineBreaks text

/-! ## Places in a text -/

/-- A place : how many bytes, how many lines, and on its line how many characters stand before
it. -/
structure Place where
  index : Nat := 0
  line : Nat := 0
  column : Nat := 0
deriving DecidableEq, Repr

namespace Place

/-- The place after characters of one line. -/
def after (chars : List Char) (p : Place) : Place :=
  { p with index := p.index + Text.byteLength chars, column := p.column + chars.length }

/-- The place after a character that is no line break. -/
def next (c : Char) (p : Place) : Place :=
  p.after [c]

/-- The place after a line break. -/
def newline (c : Char) (p : Place) : Place :=
  ⟨p.index + c.utf8Size, p.line + 1, 0⟩

end Place

/-- The text that is left, with the place where it starts. -/
structure Cursor where
  text : List Char
  place : Place := {}
deriving Repr

namespace Cursor

/-- Step over `n` characters of one line. -/
def skip (n : Nat) (c : Cursor) : Cursor :=
  ⟨c.text.drop n, c.place.after (c.text.take n)⟩

/-- Step over the characters of class `p`, which holds no line break. -/
def skipWhile (p : Char → Bool) (c : Cursor) : Cursor :=
  c.skip (c.text.takeWhile p).length

/-- Step over a line break, if there is one. -/
def skipBreak (c : Cursor) : Cursor :=
  match c.text with
  | [] => c
  | b :: text => if isBreak b then ⟨text, c.place.newline b⟩ else c

/-- Step over blanks and a comment up to the end of the line, which must be all that is left
of it. -/
def skipLine? (c : Cursor) : Option Cursor :=
  let c := c.skipWhile isBlank
  let c := if c.text.head? == some '#' then c.skipWhile (!isBreak ·) else c
  if atLineEnd c.text then some c.skipBreak else none

end Cursor

end PolicyLint.Yaml
