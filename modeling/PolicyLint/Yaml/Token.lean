import PolicyLint.Yaml.Text

/-!
# The tokens of a YAML text

`Token` lists what a text is made of before its nesting is known : the indicators of flow
style, the marks that indentation stands for in block style, the properties of nodes, and
scalars with their text already folded and unescaped.
-/

namespace PolicyLint.Yaml

/-- The text of a tag. Escapes in it spell bytes, and `none` stands for bytes that have the
form of a character in UTF-8 and are none. -/
abbrev TagText := List (Option Char)

/-- A token. Indentation shows as `blockSequenceStart`, `blockMappingStart` and `blockEnd`, and
an alias is a `reference`. -/
inductive Token
  | version (major minor : Nat)
  | tagHandle (handle : String) (stem : TagText)
  | documentStart
  | documentEnd
  | blockSequenceStart
  | blockMappingStart
  | blockEnd
  | flowSequenceStart
  | flowSequenceEnd
  | flowMappingStart
  | flowMappingEnd
  | blockEntry
  | flowEntry
  | key
  | value
  | reference (name : String)
  | anchor (name : String)
  | tag (handle : String) (suffix : TagText)
  | scalar (isPlain : Bool) (text : String)
deriving DecidableEq, Repr

end PolicyLint.Yaml
