import PolicyLint.Yaml.Token

/-!
# The nodes of a YAML document

`Node` is a document as written : its collections, its scalars with their tags, and aliases,
which name an anchored node by a number. `Node.anchored` lists the anchored nodes of a
document in the order in which they begin; an alias means the last of its number, which need
not be a node before it (`Node.target?`).
-/

namespace PolicyLint.Yaml

/-- What a tag says about a node : nothing, a type of the core schema, a type of the
application, or something else. -/
inductive Tag
  | none
  | boolean
  | integer
  | float
  | null
  | application
  | other
deriving DecidableEq, Repr

namespace Tag

/-- The start of the tags of the core schema. -/
def coreStem : TagText :=
  "tag:yaml.org,2002:".toList.map some

/-- The meaning of a tag with its handle resolved. A tag that starts with `!` is a type of the
application; if it is no text, it says nothing. -/
def ofText (text : TagText) : Tag :=
  if text.head? == some (some '!') then
    if text.all Option.isSome then .application else .none
  else
    let isCore (name : String) : Bool := text == coreStem ++ name.toList.map some
    if isCore "bool" then .boolean
    else if isCore "int" then .integer
    else if isCore "float" then .float
    else if isCore "null" then .null
    else .other

end Tag

/-- A scalar : its tag, whether it is written plain, and its text. -/
structure Scalar where
  tag : Tag := .none
  isPlain : Bool := true
  text : String := ""
deriving DecidableEq, Repr

/-- A node of a document, with the number of its anchor. An alias is a `reference` to a node
with that anchor. -/
inductive Node
  | reference (anchor : Nat)
  | scalar (anchor : Option Nat) (content : Scalar)
  | sequence (anchor : Option Nat) (tag : Tag) (items : List Node)
  | mapping (anchor : Option Nat) (tag : Tag) (entries : List (Node × Node))

namespace Node

/-- A node that is left out. -/
def empty : Node :=
  .scalar none {}

/-! ## Aliases -/

mutual

/-- The anchored nodes, in the order in which they begin. -/
def anchored : Node → List (Nat × Node)
  | .reference _ => []
  | .scalar anchor content => (anchor.map fun n => (n, .scalar anchor content)).toList
  | .sequence anchor tag items =>
    (anchor.map fun n => (n, .sequence anchor tag items)).toList ++ anchoredItems items
  | .mapping anchor tag entries =>
    (anchor.map fun n => (n, .mapping anchor tag entries)).toList ++ anchoredEntries entries

/-- The anchored nodes of the items of a sequence. -/
def anchoredItems : List Node → List (Nat × Node)
  | [] => []
  | node :: items => node.anchored ++ anchoredItems items

/-- The anchored nodes of the entries of a mapping. -/
def anchoredEntries : List (Node × Node) → List (Nat × Node)
  | [] => []
  | (key, value) :: entries => key.anchored ++ value.anchored ++ anchoredEntries entries

end

/-- The node that a node stands for, in a document with the anchored nodes `table` : itself,
unless it is an alias. -/
def target? (table : List (Nat × Node)) : Node → Option Node
  | .reference n => (table.findRev? fun entry => entry.1 == n).map Prod.snd
  | node => some node

/-! ## Size -/

mutual

/-- The number of marks that a node is written with : one for a scalar or an alias, two for
the ends of a collection. -/
def size : Node → Nat
  | .reference _ => 1
  | .scalar .. => 1
  | .sequence _ _ items => 2 + sizeItems items
  | .mapping _ _ entries => 2 + sizeEntries entries

/-- The size of the items of a sequence. -/
def sizeItems : List Node → Nat
  | [] => 0
  | node :: items => node.size + sizeItems items

/-- The size of the entries of a mapping. -/
def sizeEntries : List (Node × Node) → Nat
  | [] => 0
  | (key, value) :: entries => key.size + value.size + sizeEntries entries

end

end Node

end PolicyLint.Yaml
