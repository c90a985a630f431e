import PolicyLint.Yaml.Token

/-!
# The text of scalars

A scalar is written plain, in quotes, or as a block. Each reader walks the text one character
at a time, and keeps the text that the scalar stands for in reverse.

Plain and quoted scalars fold : blanks beside a line break are dropped, one line break is a
space, and of several the first is dropped (`Gap.fold`). A block keeps the lines after its
header as they are (`|`) or folds lines that neither start nor end in a blank (`>`), and its
header says what becomes of the line breaks at its end (`Chomping`).
-/

namespace PolicyLint.Yaml

/-! ## Gaps between words -/

/-- What stands between two words of a scalar, in reverse : blanks of one line, or line
breaks. The first break is kept apart from the rest, and is `none` if it was escaped. -/
inductive Gap
  | blanks (chars : List Char)
  | breaks (first : Option Char) (rest : List Char)

namespace Gap

/-- The text, in reverse, that a gap stands for. -/
def fold : Gap → List Char
  | blanks chars => chars
  | breaks (some '\n') [] => [' ']
  | breaks (some '\n') rest => rest
  | breaks (some c) rest => rest ++ [c]
  | breaks none rest => rest

/-- The gap with one more blank. Beside a line break a blank does not count. -/
def blank (c : Char) : Option Gap → Gap
  | none => .blanks [c]
  | some (.blanks chars) => .blanks (c :: chars)
  | some (.breaks first rest) => .breaks first rest

/-- The gap with one more line break. -/
def newline (c : Char) : Option Gap → Gap
  | some (.breaks first rest) => .breaks first (c :: rest)
  | _ => .breaks (some c) []

/-- Whether there is a line break in the gap. -/
def hasBreak : Option Gap → Bool
  | some (.breaks ..) => true
  | _ => false

/-- The text of a gap, put after the text `out`. -/
def flush (gap : Option Gap) (out : List Char) : List Char :=
  match gap with
  | none => out
  | some gap => gap.fold ++ out

end Gap

/-! ## Plain scalars -/

/-- A plain scalar : its text, the place after it and the blanks that follow it, and whether
these hold a line break. Lines after the first must be indented by `indent` columns, unless
the scalar stands in a flow collection. -/
def plain? (inFlow : Bool) (indent : Nat) :
    List Char → Place → (out : List Char) → Option Gap → Option (List Char × Cursor × Bool)
  | [], p, out, gap => some (out, ⟨[], p⟩, Gap.hasBreak gap)
  | c :: text, p, out, gap =>
    let stop := some (out, ⟨c :: text, p⟩, Gap.hasBreak gap)
    if isBlank c then
      if Gap.hasBreak gap && p.column < indent && c == '\t' then none
      else plain? inFlow indent text (p.next c) out (some (Gap.blank c gap))
    else if isBreak c then
      plain? inFlow indent text (p.newline c) out (some (Gap.newline c gap))
    else if gap.isSome && ((!inFlow && p.column < indent) || c == '#'
        || (p.column == 0 && atDocumentMark (c :: text))) then stop
    else if inFlow && c == ':' && (text.head?.any fun d => isFlowIndicator d || d == '?') then
      none
    else if (c == ':' && atGap text) || (inFlow && isFlowIndicator c) then stop
    else plain? inFlow indent text (p.next c) (c :: Gap.flush gap out) none

/-! ## Quoted scalars -/

/-- The character that a one-letter escape stands for. -/
def escape? : Char → Option Char
  | '0' => some '\x00'
  | 'a' => some '\x07'
  | 'b' => some '\x08'
  | 't' => some '\t'
  | '\t' => some '\t'
  | 'n' => some '\n'
  | 'v' => some '\x0b'
  | 'f' => some '\x0c'
  | 'r' => some '\r'
  | 'e' => some '\x1b'
  | ' ' => some ' '
  | '"' => some '"'
  | '/' => some '/'
  | '\\' => some '\\'
  | 'N' => some '\u0085'
  | '_' => some '\u00a0'
  | 'L' => some '\u2028'
  | 'P' => some '\u2029'
  | _ => none

/-- The character with the number that hexadecimal digits spell. -/
def charOfHex? (digits : List Char) : Option Char := do
  let code ← digits.foldlM (fun n d => (hexDigit? d).map (16 * n + ·)) 0
  if h : code.isValidChar then some (Char.ofNatAux code h) else none

/-- The end of a quoted scalar, at its last quote `c`. -/
def endQuote (c : Char) (out text : List Char) (p : Place) (gap : Option Gap) :
    Option (List Char × Cursor) :=
  some (Gap.flush gap out, ⟨text, p.next c⟩)

/-- A scalar in single quotes, after the first one : a quote inside it is written twice. -/
def singleQuoted? :
    List Char → Place → (out : List Char) → Option Gap → Option (List Char × Cursor)
  | [], _, _, _ => none
  | '\'' :: '\'' :: text, p, out, gap =>
    singleQuoted? text (p.after ['\'', '\'']) ('\'' :: Gap.flush gap out) none
  | c :: text, p, out, gap =>
    if c == '\'' then endQuote c out text p gap
    else if isBlank c then singleQuoted? text (p.next c) out (some (Gap.blank c gap))
    else if isBreak c then singleQuoted? text (p.newline c) out (some (Gap.newline c gap))
    else if p.column == 0 && atDocumentMark (c :: text) then none
    else singleQuoted? text (p.next c) (c :: Gap.flush gap out) none

/-- A scalar in double quotes, after the first one. A backslash escapes the character, the
code or the line break after it. -/
def doubleQuoted? :
    List Char → Place → (out : List Char) → Option Gap → Option (List Char × Cursor)
  | [], _, _, _ => none
  | '\\' :: 'x' :: a :: b :: text, p, out, gap => do
    let d ← charOfHex? [a, b]
    doubleQuoted? text (p.after ['\\', 'x', a, b]) (d :: Gap.flush gap out) none
  | '\\' :: 'u' :: a :: b :: c :: d :: text, p, out, gap => do
    let e ← charOfHex? [a, b, c, d]
    doubleQuoted? text (p.after ['\\', 'u', a, b, c, d]) (e :: Gap.flush gap out) none
  | '\\' :: 'U' :: a :: b :: c :: d :: e :: f :: g :: h :: text, p, out, gap => do
    let i ← charOfHex? [a, b, c, d, e, f, g, h]
    let p := p.after ['\\', 'U', a, b, c, d, e, f, g, h]
    doubleQuoted? text p (i :: Gap.flush gap out) none
  | '\\' :: c :: text, p, out, gap =>
    if isBreak c then
      doubleQuoted? text ((p.next '\\').newline c) (Gap.flush gap out) (some (.breaks none []))
    else do
      let d ← escape? c
      doubleQuoted? text (p.after ['\\', c]) (d :: Gap.flush gap out) none
  | c :: text, p, out, gap =>
    if c == '"' then endQuote c out text p gap
    else if isBlank c then doubleQuoted? text (p.next c) out (some (Gap.blank c gap))
    else if isBreak c then doubleQuoted? text (p.newline c) out (some (Gap.newline c gap))
    else if p.column == 0 && atDocumentMark (c :: text) then none
    else doubleQuoted? text (p.next c) (c :: Gap.flush gap out) none

/-! ## Block scalars -/

/-- What becomes of the line breaks at the end of a block. -/
inductive Chomping
  | strip
  | clip
  | keep
deriving DecidableEq, Repr

/-- The chomping that a header may name. -/
def Chomping.ofChar? : Char → Option Chomping
  | '-' => some .strip
  | '+' => some .keep
  | _ => none

/-- The header of a block after `|` or `>` : chomping and an indentation from 1 to 9, both
optional, in either order. The indentation is 0 if it is left out. -/
def blockHeader? (c : Cursor) : Option (Chomping × Nat × Cursor) := do
  let (first, c₁) := chomping c
  let (indent, c₂) ← indentation? c₁
  let (second, c₃) := if first.isSome then (first, c₂) else chomping c₂
  some (second.getD .clip, indent, ← c₃.skipLine?)
where
  /-- The chomping at the cursor, if there is one. -/
  chomping (c : Cursor) : Option Chomping × Cursor :=
    match c.text.head?.bind Chomping.ofChar? with
    | some chomping => (some chomping, c.skip 1)
    | none => (none, c)
  /-- The indentation at the cursor, or 0 if there is none. -/
  indentation? (c : Cursor) : Option (Nat × Cursor) :=
    match c.text.head? with
    | some d =>
      if d == '0' then none
      else if d.isDigit then some (d.toNat - '0'.toNat, c.skip 1)
      else some (0, c)
    | none => some (0, c)

/-- The blank lines at the start of a block, their line breaks in reverse, and the widest
column reached. With an indentation other than 0, no more than that many spaces belong to a
line. -/
def blankLines? (indent : Nat) :
    List Char → Place → (widest : Nat) → (breaks : List Char) →
      Option (List Char × Nat × Cursor)
  | [], p, widest, breaks => some (breaks, max widest p.column, ⟨[], p⟩)
  | c :: text, p, widest, breaks =>
    let isMargin := indent == 0 || decide (p.column < indent)
    if isMargin && c == ' ' then blankLines? indent text (p.next c) widest breaks
    else if isMargin && c == '\t' then none
    else if isBreak c then
      blankLines? indent text (p.newline c) (max widest p.column) (c :: breaks)
    else some (breaks, max widest p.column, ⟨c :: text, p⟩)

/-- What is known of a block so far : its text in reverse, the break after its last line, the
breaks of the blank lines after that, in reverse, and whether the last line starts with a
blank. -/
structure BlockText where
  out : List Char := []
  lastBreak : List Char := []
  blankBreaks : List Char := []
  isSpaced : Bool := false

namespace BlockText

/-- Begin a line whose first character is `c`. A folded block joins it to the line before, if
neither starts with a blank. -/
def beginLine (isFolded : Bool) (c : Char) (b : BlockText) : BlockText :=
  let isSpaced := isBlank c
  let joint :=
    if isFolded && b.lastBreak == ['\n'] && !b.isSpaced && !isSpaced then
      if b.blankBreaks.isEmpty then [' '] else []
    else b.lastBreak
  { out := c :: b.blankBreaks ++ joint ++ b.out, isSpaced }

/-- The text of the block, in reverse. -/
def finish (chomping : Chomping) (b : BlockText) : List Char :=
  match chomping with
  | .strip => b.out
  | .clip => b.lastBreak ++ b.out
  | .keep => b.blankBreaks ++ b.lastBreak ++ b.out

end BlockText

/-- The lines of a block that are indented by `indent` columns, up to the first that is
not. -/
def blockLines? (isFolded : Bool) (indent : Nat) :
    List Char → Place → (inLine : Bool) → BlockText → Option (BlockText × Cursor)
  | [], p, _, b => some (b, ⟨[], p⟩)
  | c :: text, p, true, b =>
    if isBreak c then
      blockLines? isFolded indent text (p.newline c) false { b with lastBreak := [c] }
    else blockLines? isFolded indent text (p.next c) true { b with out := c :: b.out }
  | c :: text, p, false, b =>
    if decide (p.column < indent) && c == ' ' then
      blockLines? isFolded indent text (p.next c) false b
    else if decide (p.column < indent) && c == '\t' then none
    else if isBreak c then
      blockLines? isFolded indent text (p.newline c) false
        { b with blankBreaks := c :: b.blankBreaks }
    else if p.column == indent then
      blockLines? isFolded indent text (p.next c) true (b.beginLine isFolded c)
    else some (b, ⟨c :: text, p⟩)

/-- A block, from its header on. `parent` is the indentation that it must exceed, or `none`
at the top level. -/
def block? (isFolded : Bool) (parent : Option Nat) (c : Cursor) :
    Option (List Char × Cursor) := do
  let (chomping, increment, c) ← blockHeader? c
  let given := if increment == 0 then 0 else parent.getD 0 + increment
  let (breaks, widest, c) ← blankLines? given c.text c.place 0 []
  let least := match parent with
    | some n => n + 1
    | none => 1
  let indent := if given == 0 then max widest least else given
  let (b, c) ← blockLines? isFolded indent c.text c.place false { blankBreaks := breaks }
  some (b.finish chomping, c)

end PolicyLint.Yaml
