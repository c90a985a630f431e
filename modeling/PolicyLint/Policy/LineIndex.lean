import PolicyLint.Text.Blank
import PolicyLint.Text.Lines
import PolicyLint.Text.Size

/-!
# Where policies are declared

`LineIndex.ofText` finds the line of each policy in the text of a policy file, without reading
the text as YAML : it follows the indentation of the lines. A block opens at a line that
starts with `policies:` and closes at the next line that is indented less, or as much without
being an item. In it, the dashes of the items stand in the column of the first one, and the
keys of an item in the column of the key behind its dash; a key `name:` in that column names a
policy (`LineIndex.names`). Of several declarations of a name the first counts.
-/

namespace PolicyLint

namespace LineIndex

/-! ## Values -/

/-- A value up to the comment behind it. -/
def beforeComment : List Char → List Char
  | [] => []
  | ' ' :: '#' :: _ => []
  | c :: text => c :: beforeComment text

/-- What stands between two quotes `q` at the ends of a text. -/
def between? (q : Char) : List Char → Option (List Char)
  | [] => none
  | c :: text => if c = q ∧ text.getLast? = some q then some text.dropLast else none

/-- A text without the quotes around it. -/
def unquote (text : List Char) : List Char :=
  ((between? '"' text) <|> (between? '\'' text)).getD text

/-- The rest of a text after `start`. -/
def after? : (start : List Char) → List Char → Option (List Char)
  | [], text => some text
  | _ :: _, [] => none
  | a :: start, c :: text => if a = c then after? start text else none

/-- The name that a text gives, if it is a key for one and there is a name behind it. -/
def name? (text : List Char) : Option (List Char) := do
  let value ← after? "name:".toList text
  let name := unquote (Text.trim (beforeComment value))
  if name.isEmpty then none else some name

/-! ## Lines -/

/-- What is known where a line begins : the column of the open block, of the dashes of its
items, and of the keys of the last item. -/
structure State where
  block : Option Nat := none
  item : Option Nat := none
  key : Option Nat := none
deriving DecidableEq, Repr

/-- The number of bytes of the white space at the start of a text. -/
def indentation (text : List Char) : Nat :=
  Text.byteLength (text.takeWhile Text.isSpace)

/-- Whether a line is an item, given without the white space before it. -/
def isItem (text : List Char) : Bool :=
  match text with
  | ['-'] => true
  | '-' :: ' ' :: _ => true
  | _ => false

/-- Whether a line, given without the white space before it, says nothing. -/
def isVoid (text : List Char) : Bool :=
  match text with
  | [] => true
  | c :: _ => c == '#'

/-- The state with the block closed if a line that is indented by `indent` ends it. -/
def closeBlock (indent : Nat) (text : List Char) (s : State) : State :=
  match s.block with
  | some block =>
    if indent < block || (indent == block && !isItem text) then { s with block := none } else s
  | none => s

/-- The state after a line of the open block, and the name that the line gives. -/
def blockLine (block indent : Nat) (text : List Char) (s : State) :
    State × Option (List Char) :=
  match text with
  | '-' :: rest =>
    let item := s.item.getD (max indent block)
    let s := { s with item := some item }
    if indent != item then (s, none)
    else
      let key := Text.trimStart rest
      ({ s with key := some (indent + 1 + indentation rest) }, name? key)
  | text => (s, if s.key = some indent then name? text else none)

/-- The state after a line, and the name that the line gives. -/
def line (s : State) (line : List Char) : State × Option (List Char) :=
  let text := Text.trimStart line
  let indent := indentation line
  if isVoid text then (s, none)
  else
    let s := closeBlock indent text s
    match s.block with
    | some block => blockLine block indent text s
    | none =>
      if (after? "policies:".toList text).isSome then ({ block := some indent }, none)
      else (s, none)

/-- The names that lines give, with the numbers of the lines, of which the first is
`number`. -/
def namesFrom (s : State) (number : Nat) : List (List Char) → List (String × Nat)
  | [] => []
  | text :: lines =>
    let (s, name) := line s text
    let names := namesFrom s (number + 1) lines
    match name with
    | some name => (String.ofList name, number) :: names
    | none => names

/-- The names that a text gives to its policies, with the numbers of their lines. -/
def names (text : String) : List (String × Nat) :=
  namesFrom {} 1 (Text.lines text.toList)

/-- A list of names with every name at its first place only. -/
def firstNames : List (String × Nat) → List (String × Nat)
  | [] => []
  | entry :: entries => entry :: (firstNames entries).filter fun other => other.1 != entry.1

end LineIndex

/-- The lines of the policies of a file. -/
structure LineIndex where
  file : String
  positions : List (String × Nat)
deriving DecidableEq, Repr

namespace LineIndex

/-- The lines of the policies in the text of a file. -/
def ofText (file text : String) : LineIndex :=
  ⟨file, firstNames (names text)⟩

/-- The line that a policy is declared on. -/
def line? (index : LineIndex) (name : String) : Option Nat :=
  index.positions.lookup name

/-- The place where a policy is declared. -/
def place? (index : LineIndex) (name : String) : Option String :=
  (index.line? name).map fun line => index.file ++ ":" ++ toString line

end LineIndex

end PolicyLint
