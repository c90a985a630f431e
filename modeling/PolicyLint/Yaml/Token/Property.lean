import PolicyLint.Yaml.Token

/-!
# Anchors, tags and directives

The properties of a node stand before it : `&name` marks it, `*name` repeats a marked one,
and a tag (`!word`, `!handle!word` or `!<text>`) names its type. A directive stands on a line
of its own before a document : `%YAML` with a version or `%TAG` with the text that a handle
stands for. `anchor?`, `tag?` and `directive?` read one of them from the cursor on its first
character; what may follow it is part of its form.
-/

namespace PolicyLint.Yaml.Cursor

/-! ## Anchors -/

/-- The name after `&` or `*`, which a gap or an indicator must follow. -/
def anchorName? (c : Cursor) : Option (String × Cursor) :=
  let c := c.skip 1
  let name := c.text.takeWhile isWord
  let c := c.skip name.length
  let ends := atGap c.text || (c.text.head?.any fun d => "?:,]\x7d%@\x60".toList.contains d)
  if name.isEmpty || !ends then none else some (String.ofList name, c)

/-! ## Tags -/

/-- The number that two hexadecimal digits stand for. -/
def hexPair? : List Char → Option (Nat × List Char)
  | '%' :: a :: b :: text =>
    match hexDigit? a, hexDigit? b with
    | some x, some y => some (16 * x + y, text)
    | _, _ => none
  | _ => none

/-- `n` continuation bytes of a UTF-8 sequence written as escapes, added to `value`. -/
def escapedTail? : (n : Nat) → (value : Nat) → List Char → Option Nat
  | 0, value, _ => some value
  | n + 1, value, text => do
    let (byte, text) ← hexPair? text
    if byte / 64 = 2 then escapedTail? n (64 * value + byte % 64) text else none

/-- The character that a sequence of `n + 1` bytes spells. It is none if fewer bytes would do,
or if there is no such character. -/
def charOfSequence? (n code : Nat) : Option Char :=
  let least := match n with
    | 0 => 0
    | 1 => 0x80
    | 2 => 0x800
    | _ => 0x10000
  if h : least ≤ code ∧ code.isValidChar then some (Char.ofNatAux code h.2) else none

/-- One character written as the escapes of its UTF-8 bytes, and the number of escapes. The
form of the bytes counts, whether they are a character or not. -/
def escapedChar? (text : List Char) : Option (Option Char × Nat) := do
  let (byte, text) ← hexPair? text
  let (more, value) ←
    if byte < 0x80 then some (0, byte)
    else if byte / 32 = 6 then some (1, byte % 32)
    else if byte / 16 = 14 then some (2, byte % 16)
    else if byte / 8 = 30 then some (3, byte % 8)
    else none
  let code ← escapedTail? more value text
  some (charOfSequence? more code, more + 1)

/-- The text of a tag up to the first character that no tag may hold, and its length as
written. Inside angle brackets the separators of flow style belong to it. `skip` counts the
characters of an escape that are read already. -/
def wholeTagText? (isVerbatim : Bool) : (skip : Nat) → List Char → Option (TagText × Nat)
  | _, [] => some ([], 0)
  | skip + 1, _ :: text => (wholeTagText? isVerbatim skip text).map fun (r, n) => (r, n + 1)
  | 0, c :: text =>
    if c == '%' then do
      let (d, n) ← escapedChar? (c :: text)
      let (r, m) ← wholeTagText? isVerbatim (3 * n - 1) text
      some (d :: r, m + 1)
    else if isUri c || (isVerbatim && (c == ',' || c == '[' || c == ']')) then
      (wholeTagText? isVerbatim 0 text).map fun (r, n) => (some c :: r, n + 1)
    else some ([], 0)

/-- The text of a tag up to the first escaped NUL in it, which ends what counts, and its whole
length as written. -/
def tagText? (isVerbatim : Bool) (text : List Char) : Option (TagText × Nat) :=
  (wholeTagText? isVerbatim 0 text).map fun (r, n) => (r.takeWhile (· != some '\x00'), n)

/-- A handle : `!`, or a word between two `!`. Without a second `!` it is `!` with the word
after it, which is then no handle but the start of a tag. -/
def tagHandle (text : List Char) : List Char :=
  match text with
  | '!' :: text =>
    let word := text.takeWhile isWord
    let close := if (text.drop word.length).head? == some '!' then ['!'] else []
    '!' :: word ++ close
  | _ => []

/-- Whether `handle` is closed by a second `!`. -/
def isClosedHandle (handle : List Char) : Bool :=
  2 ≤ handle.length && handle.getLast? == some '!'

/-- The handle and the suffix of a tag. A tag in angle brackets has an empty handle, and so
has the tag `!` alone. -/
def tagParts? (c : Cursor) : Option (String × TagText × Cursor) :=
  match c.text with
  | '!' :: '<' :: text => do
    let (suffix, n) ← tagText? true text
    let c := c.skip (n + 2)
    if n == 0 || c.text.head? != some '>' then none
    else some ("", suffix, c.skip 1)
  | text => do
    let handle := tagHandle text
    let c := c.skip handle.length
    let (suffix, n) ← tagText? false c.text
    let c := c.skip n
    if isClosedHandle handle then
      if n == 0 then none else some (String.ofList handle, suffix, c)
    else
      match (handle.drop 1).map some ++ suffix with
      | [] => some ("", [some '!'], c)
      | suffix => some ("!", suffix, c)

/-- A tag, which a gap must follow, or in flow style a comma. -/
def tag? (inFlow : Bool) (c : Cursor) : Option (Token × Cursor) := do
  let (handle, suffix, c) ← tagParts? c
  if atGap c.text || (inFlow && c.text.head? == some ',') then
    some (.tag handle suffix, c)
  else none

/-! ## Directives -/

/-- A number of at most nine digits. -/
def versionNumber? (c : Cursor) : Option (Nat × Cursor) :=
  let digits := c.text.takeWhile Char.isDigit
  if digits.isEmpty || 9 < digits.length then none
  else some (Nat.ofDigitChars 10 digits 0, c.skip digits.length)

/-- The version after `%YAML`. -/
def version? (c : Cursor) : Option (Token × Cursor) := do
  let (major, c) ← versionNumber? (c.skipWhile isBlank)
  if c.text.head? != some '.' then none
  let (minor, c) ← versionNumber? (c.skip 1)
  some (.version major minor, c)

/-- The handle and the text that it stands for, after `%TAG`. -/
def handle? (c : Cursor) : Option (Token × Cursor) := do
  let c := c.skipWhile isBlank
  let handle := tagHandle c.text
  if handle != ['!'] && !isClosedHandle handle then none
  let c := c.skip handle.length
  if !(c.text.head?.any isBlank) then none
  let c := c.skipWhile isBlank
  let (stem, n) ← tagText? true c.text
  let c := c.skip n
  if n == 0 || !atGap c.text then none
  some (.tagHandle (String.ofList handle) stem, c)

/-- A directive, with the line that holds it. -/
def directive? (c : Cursor) : Option (Token × Cursor) := do
  let c := c.skip 1
  let name := c.text.takeWhile isWord
  let c := c.skip name.length
  if !atGap c.text then none
  let (token, c) ←
    if name == "YAML".toList then version? c
    else if name == "TAG".toList then handle? c
    else none
  some (token, ← c.skipLine?)

end PolicyLint.Yaml.Cursor
