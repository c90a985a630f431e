import PolicyLint.Data.Value
import PolicyLint.Yaml.Node.Grammar
import PolicyLint.Yaml.Scalar
import PolicyLint.Yaml.Token.Stream

/-!
# Documents without aliases

`Tree` is a document in which every alias is replaced by the node it stands for and every key
is a scalar. `Tree.ofNode?` expands a document up to a depth of `maxDepth` collections, with at
most `aliasesPerMark` replacements for every mark of the document, so that a small text cannot
stand for an endless one.

The readers at the end take a tree for what a schema expects : a list, a record with known
fields, a text, or untyped data.
-/

namespace PolicyLint.Yaml

/-- A document without aliases. -/
inductive Tree
  | scalar (content : Scalar)
  | sequence (tag : Tag) (items : List Tree)
  | mapping (tag : Tag) (entries : List (Scalar × Tree))

namespace Tree

/-! ## Expansion -/

/-- The number of collections that may contain each other. -/
def maxDepth : Nat := 128

/-- The number of aliases that are followed for every mark of a document. -/
def aliasesPerMark : Nat := 100

/-- A step that may fail, with the number of aliases that may still be followed. -/
abbrev Expansion := StateT Nat Option

variable (table : List (Nat × Node))

/-- The node that a node stands for. -/
def follow (node : Node) : Expansion Node := do
  if let .reference _ := node then
    match ← get with
    | 0 => failure
    | left + 1 => set left
  match node.target? table with
  | some target => return target
  | none => failure

/-- The scalar that a key stands for. -/
def expandKey (key : Node) : Expansion Scalar := do
  match ← follow table key with
  | .scalar _ content => return content
  | _ => failure

/-- The tree of a node, in which at most `depth` collections contain each other. -/
def expand : (depth : Nat) → Node → Expansion Tree
  | 0, node => do
    match ← follow table node with
    | .scalar _ content => return .scalar content
    | _ => failure
  | depth + 1, node => do
    match ← follow table node with
    | .scalar _ content => return .scalar content
    | .sequence _ tag items => return .sequence tag (← items.mapM (expand depth))
    | .mapping _ tag entries =>
      return .mapping tag (← entries.mapM fun (key, value) => do
        return (← expandKey table key, ← expand depth value))
    | .reference _ => failure

/-- The tree of the outermost node. Of a mapping, only the entries with a key of class
`isRead` are expanded and kept. -/
def expandRoot (isRead : String → Bool) (root : Node) : Expansion Tree := do
  match root with
  | .mapping _ tag entries =>
    let read ← entries.filterMapM fun (key, value) => do
      let key ← expandKey table key
      if isRead key.text then
        let value ← expand table (maxDepth - 1) value
        return some (key, value)
      else return none
    return .mapping tag read
  | node => expand table maxDepth node

/-- The tree of a document, of which only the entries with a key of class `isRead` are read,
if it is a mapping. -/
def ofNode? (isRead : String → Bool) (root : Node) : Option Tree :=
  (expandRoot root.anchored isRead root).run' (aliasesPerMark * root.size)

/-! ## Reading -/

/-- A node that is left out, or written as nothing. -/
def isEmpty : Tree → Bool
  | scalar content => content.isPlain && content.text.isEmpty
  | _ => false

/-- The text of a scalar, whatever its tag. -/
def text? : Tree → Option String
  | scalar content => some content.text
  | _ => none

/-- The items of a list, whatever its tag. An empty node is an empty list. -/
def items? : Tree → Option (List Tree)
  | sequence _ items => some items
  | tree => if tree.isEmpty then some [] else none

/-- The entries of a mapping, whatever its tag. An empty node is an empty mapping. -/
def entries? : Tree → Option (List (Scalar × Tree))
  | mapping _ entries => some entries
  | tree => if tree.isEmpty then some [] else none

/-- The fields of a record : the entries of a mapping, whose keys must be among `names` and
must not be repeated. -/
def fields? (names : List String) (tree : Tree) : Option (List (String × Tree)) := do
  let entries ← tree.entries?
  let fields := entries.map fun (key, value) => (key.text, value)
  if fields.all (fun (key, _) => names.contains key) && (fields.map Prod.fst).Nodup then
    some fields
  else none

/-- The list in the field `name`, whose items `read?` reads. A field that is left out is an
empty list. -/
def listField? {α : Type} (read? : Tree → Option α) (name : String)
    (fields : List (String × Tree)) : Option (List α) := do
  match fields.lookup name with
  | some tree => (← tree.items?).mapM read?
  | none => some []

/-! ## Untyped data -/

/-- The data that the value of a scalar is. A number that is none is a null. -/
def valueOfAtom : Atom → Value
  | .null => .null
  | .boolean value => .boolean value
  | .whole value => .number (.int value.toInt)
  | .float value => .number (.float value)
  | .irregular => .null
  | .text value => .string value

variable (key? : Scalar → Option String)

mutual

/-- The untyped data of a tree, if it has no type of the application in it, with its keys as
`key?` reads them. Of a repeated key the last entry counts. -/
def value? : Tree → Option Value
  | scalar content => content.atom?.map valueOfAtom
  | sequence tag items =>
    if tag == .application then none else (valueItems? items).map .list
  | mapping tag entries =>
    if tag == .application then none
    else (valueEntries? entries).map fun data => .mapping (Mapping.ofEntries data)

/-- The untyped data of the items of a sequence. -/
def valueItems? : List Tree → Option (List Value)
  | [] => some []
  | tree :: items => do
    let value ← tree.value?
    let values ← valueItems? items
    some (value :: values)

/-- The untyped data of the entries of a mapping. -/
def valueEntries? : List (Scalar × Tree) → Option (List (String × Value))
  | [] => some []
  | (content, tree) :: entries => do
    let key ← key? content
    let value ← tree.value?
    let data ← valueEntries? entries
    some ((key, value) :: data)

end

/-- The untyped data of a tree, its keys read as text. -/
def data? (tree : Tree) : Option Value :=
  tree.value? fun key => some key.text

end Tree

/-- The tree of the document in a text, of which only the entries with a key of class `isRead`
are read, if it is a mapping. -/
def Tree.ofText? (isRead : String → Bool) (text : String) : Option Tree := do
  let tokens ← Token.ofText? text
  let root ← Node.ofTokens? tokens
  Tree.ofNode? isRead root

end PolicyLint.Yaml
