import PolicyLint.Yaml.Token.Property
import PolicyLint.Yaml.Token.Scalar

/-!
# Reading the tokens of a text

`Token.ofText?` turns a text into its tokens, or into `none` if the text is malformed.

Block style has no brackets : a line indented further than the collection around it opens a
collection, and a line indented less closes one. `TokenReader` keeps the columns of the open
block collections (`indents`), and for every open bracket and the level outside of all of them
the last token that may turn out to be a key (`PossibleKey`). When a `:` follows such a token
on the same line, `key` is put before it, and before that the start of a mapping if the key is
indented far enough.
-/

namespace PolicyLint.Yaml

/-- A node that is a key if a `:` follows it : the number of tokens before it and its place.
It is required to be one where nothing else can stand. -/
structure PossibleKey where
  isRequired : Bool
  index : Nat
  place : Place

/-- The state of reading : the text that is left, the columns of the open block collections,
innermost first, the possible keys, innermost first, whether a key may begin here, and the
tokens so far, last first. -/
structure TokenReader where
  cursor : Cursor
  indents : List Nat := []
  key : Option PossibleKey := none
  outerKeys : List (Option PossibleKey) := []
  keyAllowed : Bool := true
  tokens : List Token := []

namespace TokenReader

/-- Whether a bracket is open. -/
def inFlow (s : TokenReader) : Bool :=
  !s.outerKeys.isEmpty

/-- The column of the cursor. -/
def column (s : TokenReader) : Nat :=
  s.cursor.place.column

/-- Add a token, and go on at `cursor`. -/
def push (token : Token) (cursor : Cursor) (s : TokenReader) : TokenReader :=
  { s with tokens := token :: s.tokens, cursor }

/-- Put a token in after the first `index` tokens. -/
def insertAt (index : Nat) (token : Token) (s : TokenReader) : TokenReader :=
  { s with tokens := s.tokens.insertIdx (s.tokens.length - index) token }

/-! ## Indentation -/

/-- Whether `column` is deeper than every open block collection. -/
def isDeeper (column : Nat) (s : TokenReader) : Bool :=
  match s.indents with
  | [] => true
  | indent :: _ => indent < column

/-- Open a block collection at `column`, if that is deeper than those open, with its start
after the first `index` tokens. Brackets hide indentation. -/
def openBlock (column index : Nat) (start : Token) (s : TokenReader) : TokenReader :=
  if !s.inFlow && s.isDeeper column then
    { s with indents := column :: s.indents }.insertAt index start
  else s

/-- Open a block collection at the cursor. -/
def openBlockHere (start : Token) (s : TokenReader) : TokenReader :=
  s.openBlock s.column s.tokens.length start

/-- Close the block collections for which `isClosed` holds of their column. -/
def closeBlocks (isClosed : Nat → Bool) (s : TokenReader) : TokenReader :=
  if s.inFlow then s
  else
    let closed := s.indents.takeWhile isClosed
    { s with
      indents := s.indents.drop closed.length
      tokens := closed.map (fun _ => Token.blockEnd) ++ s.tokens }

/-! ## Possible keys -/

/-- Forget the innermost possible key, which must not be required. -/
def dropKey (s : TokenReader) : Option TokenReader :=
  if s.key.any (·.isRequired) then none else some { s with key := none }

/-- Take the node at the cursor for a possible key, where keys are allowed. In block style it
is required to be one if it stands in the column of the innermost open collection. -/
def saveKey (s : TokenReader) : Option TokenReader :=
  if s.keyAllowed then do
    let s ← s.dropKey
    let isRequired := !s.inFlow && s.indents.head? == some s.column
    some { s with key := some ⟨isRequired, s.tokens.length, s.cursor.place⟩ }
  else some s

/-- Forget a possible key that the reading has left behind : a key stands on one line and has
at most 1024 bytes. -/
def checkKey (p : Place) : Option PossibleKey → Option (Option PossibleKey)
  | none => some none
  | some k =>
    if k.place.line < p.line || k.place.index + 1024 < p.index then
      if k.isRequired then none else some none
    else some (some k)

/-- Forget the possible keys that the reading has left behind. -/
def checkKeys (s : TokenReader) : Option TokenReader := do
  let p := s.cursor.place
  let key ← checkKey p s.key
  let outerKeys ← s.outerKeys.mapM (checkKey p)
  some { s with key, outerKeys }

/-! ## Between tokens -/

/-- The rest of a text, and the place, after blanks, comments and line breaks, with whether a
key may begin there. A tab counts as a blank only where no key may begin. -/
def skipGap (inFlow : Bool) :
    List Char → Place → (inComment allowed : Bool) → List Char × Place × Bool
  | [], p, _, allowed => ([], p, allowed)
  | c :: text, p, inComment, allowed =>
    if isBreak c then skipGap inFlow text (p.newline c) false (allowed || !inFlow)
    else if inComment || c == ' ' || (c == '\t' && (inFlow || !allowed))
        || (c == '\uFEFF' && p.column == 0) then
      skipGap inFlow text (p.next c) inComment allowed
    else if c == '#' then skipGap inFlow text (p.next c) true allowed
    else (c :: text, p, allowed)

/-- Step to the next token, closing the block collections that its column ends. -/
def toNextToken (s : TokenReader) : Option TokenReader := do
  let (text, place, keyAllowed) :=
    skipGap s.inFlow s.cursor.text s.cursor.place false s.keyAllowed
  let s ← { s with cursor := ⟨text, place⟩, keyAllowed }.checkKeys
  some (s.closeBlocks (s.column < ·))

/-! ## Kinds of tokens -/

/-- Close everything that is open before a directive or a document mark. -/
def closeAll (s : TokenReader) : Option TokenReader := do
  let s ← (s.closeBlocks fun _ => true).dropKey
  some { s with keyAllowed := false }

/-- A directive. -/
def directive (s : TokenReader) : Option TokenReader := do
  let s ← s.closeAll
  let (token, c) ← s.cursor.directive?
  some (s.push token c)

/-- A line `---` or `...`. -/
def documentMark (token : Token) (s : TokenReader) : Option TokenReader := do
  let s ← s.closeAll
  some (s.push token (s.cursor.skip 3))

/-- An opening bracket. -/
def openFlow (token : Token) (s : TokenReader) : Option TokenReader := do
  let s ← s.saveKey
  let s := { s with key := none, outerKeys := s.key :: s.outerKeys, keyAllowed := true }
  some (s.push token (s.cursor.skip 1))

/-- A closing bracket. -/
def closeFlow (token : Token) (s : TokenReader) : Option TokenReader := do
  let s ← s.dropKey
  let s := match s.outerKeys with
    | [] => s
    | key :: outerKeys => { s with key, outerKeys }
  some ({ s with keyAllowed := false }.push token (s.cursor.skip 1))

/-- A comma between the entries of a flow collection. -/
def flowEntry (s : TokenReader) : Option TokenReader := do
  let s ← s.dropKey
  some ({ s with keyAllowed := true }.push .flowEntry (s.cursor.skip 1))

/-- The `-` before an entry of a block sequence. -/
def blockEntry (s : TokenReader) : Option TokenReader := do
  if !s.inFlow && !s.keyAllowed then none
  let s ← (s.openBlockHere .blockSequenceStart).dropKey
  some ({ s with keyAllowed := true }.push .blockEntry (s.cursor.skip 1))

/-- The `?` before a key. -/
def explicitKey (s : TokenReader) : Option TokenReader := do
  if !s.inFlow && !s.keyAllowed then none
  let s ← (s.openBlockHere .blockMappingStart).dropKey
  some ({ s with keyAllowed := !s.inFlow }.push .key (s.cursor.skip 1))

/-- The `:` before a value. A possible key before it is one. -/
def value (s : TokenReader) : Option TokenReader :=
  match s.key with
  | some k =>
    let s := (s.insertAt k.index .key).openBlock k.place.column k.index .blockMappingStart
    some ({ s with key := none, keyAllowed := false }.push .value (s.cursor.skip 1))
  | none => do
    if !s.inFlow && !s.keyAllowed then none
    let s := s.openBlockHere .blockMappingStart
    some ({ s with keyAllowed := !s.inFlow }.push .value (s.cursor.skip 1))

/-- A token that may begin a key, as `read?` reads it from the cursor. -/
def node (read? : Cursor → Option (Token × Cursor)) (s : TokenReader) : Option TokenReader := do
  let s ← s.saveKey
  let (token, c) ← read? s.cursor
  some ({ s with keyAllowed := false }.push token c)

/-- An anchor or an alias. -/
def mark (token : String → Token) (s : TokenReader) : Option TokenReader :=
  s.node fun c => c.anchorName?.map fun (name, c) => (token name, c)

/-- A scalar in quotes. -/
def quoted
    (read? : List Char → Place → List Char → Option Gap → Option (List Char × Cursor))
    (s : TokenReader) : Option TokenReader :=
  s.node fun c =>
    let c := c.skip 1
    (read? c.text c.place [] none).map fun (out, c) =>
      (.scalar false (String.ofList out.reverse), c)

/-- A block scalar. -/
def blockScalar (isFolded : Bool) (s : TokenReader) : Option TokenReader := do
  let s ← s.dropKey
  let (out, c) ← block? isFolded s.indents.head? (s.cursor.skip 1)
  some ({ s with keyAllowed := true }.push (.scalar false (String.ofList out.reverse)) c)

/-- A plain scalar. After a line break behind it a key may begin. -/
def plain (s : TokenReader) : Option TokenReader := do
  let s ← s.saveKey
  let indent := match s.indents with
    | [] => 0
    | indent :: _ => indent + 1
  let (out, c, hasBreak) ← plain? s.inFlow indent s.cursor.text s.cursor.place [] none
  some ({ s with keyAllowed := hasBreak }.push (.scalar true (String.ofList out.reverse)) c)

/-! ## The whole text -/

/-- Read the token at the cursor, whose first character is `c` with `text` behind it. -/
def token (c : Char) (text : List Char) (s : TokenReader) : Option TokenReader :=
  if s.column == 0 && c == '%' then s.directive
  else if s.column == 0 && atDocumentMark (c :: text) then
    s.documentMark (if c == '-' then .documentStart else .documentEnd)
  else
    let isSeparate := s.inFlow || atGap text
    match c with
    | '[' => s.openFlow .flowSequenceStart
    | '\x7b' => s.openFlow .flowMappingStart
    | ']' => s.closeFlow .flowSequenceEnd
    | '\x7d' => s.closeFlow .flowMappingEnd
    | ',' => s.flowEntry
    | '*' => s.mark .reference
    | '&' => s.mark .anchor
    | '!' => s.node (·.tag? s.inFlow)
    | '\'' => s.quoted singleQuoted?
    | '"' => s.quoted doubleQuoted?
    | '-' =>
      if atGap text then s.blockEntry else s.plain
    | '?' => if isSeparate then s.explicitKey else s.plain
    | ':' => if isSeparate then s.value else s.plain
    | '|' => if s.inFlow then none else s.blockScalar false
    | '>' => if s.inFlow then none else s.blockScalar true
    | c => if isBlank c || isIndicator c then none else s.plain

/-- Read the rest of the text. Every token takes at least one character, so `fuel` tokens
are enough if it exceeds the length of the text. -/
def finish : (fuel : Nat) → TokenReader → Option (List Token)
  | 0, _ => none
  | fuel + 1, s => do
    let s ← s.toNextToken
    match s.cursor.text with
    | [] =>
      let s ← s.closeAll
      some s.tokens.reverse
    | c :: text => finish fuel (← s.token c text)

end TokenReader

/-- The tokens of a text, if it is well formed. -/
def Token.ofText? (text : String) : Option (List Token) :=
  let chars := text.toList
  if chars.all isAllowed then
    TokenReader.finish (chars.length + 1) { cursor := ⟨lineBreaks chars, {}⟩ }
  else none

end PolicyLint.Yaml
