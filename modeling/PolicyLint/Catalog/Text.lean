import PolicyLint.Catalog.Draft

/-!
# Catalogs as text

`CatalogDraft.ofTree?` reads a catalog from a document, and `Catalog.ofText` from a text. A
catalog is read strictly : every key must be known at its place and must not be repeated, and
nothing is constructed before all of it is read.

The entries of a catalog are records of texts and lists. A rule is read otherwise : its values
are what they are as untyped data, so that a number is no name. It is a mapping from the names
of its fields, or from their positions, or it is a list of their values in order; `kind` comes
first in a list, and anywhere in a mapping.
-/

namespace PolicyLint

open Yaml (Scalar Tree Atom)

namespace RuleDraft

/-! ## Fields of rules -/

/-- The text of a scalar that is a string. -/
def string? (content : Scalar) : Option String :=
  match content.atom? with
  | some (.text text) => some text
  | _ => none

/-- The string that a tree is. -/
def name? : Tree → Option String
  | .scalar content => string? content
  | _ => none

/-- The strings of a list. -/
def names? : Tree → Option (List String)
  | .sequence tag items => if tag == .application then none else items.mapM name?
  | _ => none

/-- The link that a tree is; a null is none. -/
def link? : Tree → Option (Option String)
  | .scalar content =>
    match content.atom? with
    | some .null => some none
    | some (.text text) => some (some text)
    | _ => none
  | _ => none

/-- What a key says of `names` : one of them, or the position of one, counted from 0 and
written without a minus. -/
def choice? (names : List String) (key : Scalar) : Option String :=
  match key.atom? with
  | some (.text text) => if names.contains text then some text else none
  | some (.whole n) => if n.hasMinus then none else names[n.magnitude]?
  | _ => none

/-- Whether there is nothing in a tree : it is a null or an empty mapping. -/
def isUnit : Tree → Bool
  | .scalar content => content.atom? == some .null
  | .mapping tag entries => tag != .application && entries.isEmpty
  | _ => false

/-- The kind of element that a tree names, as a string or as the one key of a mapping. -/
def elementKind? : Tree → Option ElementKind
  | .scalar content => (string? content).bind ElementKind.ofName?
  | .mapping tag [(key, value)] => do
    if tag == .application || !isUnit value then none
    (← choice? (ElementKind.all.map ElementKind.name) key) |> ElementKind.ofName?
  | _ => none

/-- The fields of the rules of a kind, in order. -/
def fieldNames? : String → Option (List String)
  | "alias" => some ["name", "removed_after", "link"]
  | "field" => some ["name", "replacement", "removed_after", "link"]
  | "element" => some ["element", "name", "replacement", "removed_after", "link"]
  | "optional-field" => some ["name", "removed_after", "link"]
  | "optional-fields" => some ["names", "removed_after", "link"]
  | _ => none

variable (fields : List (String × Tree))

/-- The field `name`, which must be there, as `read?` reads it. -/
def required? {α : Type} (read? : Tree → Option α) (name : String) : Option α :=
  (fields.lookup name).bind read?

/-- The field `name`, as `read?` reads it, or `default` if it is left out. -/
def optional? {α : Type} (read? : Tree → Option α) (default : α) (name : String) : Option α :=
  match fields.lookup name with
  | some tree => read? tree
  | none => some default

/-- The form of a rule of a kind. -/
def form? (kind : String) : Option RuleForm :=
  match kind with
  | "alias" => do
    return .typeAlias (← required? fields name? "name")
  | "field" => do
    return .field (← required? fields name? "name") (← required? fields name? "replacement")
  | "element" => do
    return .element (← required? fields elementKind? "element")
      (← required? fields name? "name") (← required? fields name? "replacement")
  | "optional-field" => do
    return .optionalField (← required? fields name? "name")
  | "optional-fields" => do
    return .optionalFields (← required? fields names? "names")
  | _ => none

/-- The rule of a kind with the given fields. -/
def ofFields? (kind : String) : Option RuleDraft := do
  let form ← form? fields kind
  let removedAfter ← optional? fields (Tree.value? string?) .null "removed_after"
  let link ← optional? fields link? none "link"
  return { form, removedAfter, link }

/-! ## Rules -/

/-- The rule in a mapping. -/
def ofEntries? (entries : List (Scalar × Tree)) : Option RuleDraft := do
  let isKind (entry : Scalar × Tree) : Bool := string? entry.1 == some "kind"
  match entries.filter isKind with
  | [(_, tree)] =>
    let kind ← tree.text?
    let names ← fieldNames? kind
    let fields ← (entries.filter fun entry => !isKind entry).mapM fun (key, value) => do
      return (← choice? names key, value)
    if !decide (fields.map Prod.fst).Nodup then none
    ofFields? fields kind
  | _ => none

/-- The rule in a list. -/
def ofItems? (items : List Tree) : Option RuleDraft := do
  match items with
  | [] => none
  | tree :: values =>
    let kind ← tree.text?
    let names ← fieldNames? kind
    if names.length < values.length then none
    ofFields? (names.zip values) kind

/-- The rule in a tree. -/
def ofTree? : Tree → Option RuleDraft
  | .mapping tag entries => if tag == .application then none else ofEntries? entries
  | .sequence tag items => if tag == .application then none else ofItems? items
  | .scalar _ => none

end RuleDraft

/-! ## Catalogs -/

/-- The entry for an execution mode, a filter or an action. -/
def ElementDraft.ofTree? (tree : Tree) : Option ElementDraft := do
  let fields ← tree.fields? ["names", "resources", "deprecations"]
  if (fields.lookup "names").isNone then none
  return {
    names := ← Tree.listField? Tree.text? "names" fields
    resources := ← Tree.listField? Tree.text? "resources" fields
    deprecations := ← Tree.listField? RuleDraft.ofTree? "deprecations" fields }

/-- The entry for a resource type. -/
def ResourceDraft.ofTree? (tree : Tree) : Option ResourceDraft := do
  let fields ← tree.fields? ["resource", "deprecations"]
  return {
    resource := ← (← fields.lookup "resource").text?
    deprecations := ← Tree.listField? RuleDraft.ofTree? "deprecations" fields }

/-- The catalog in a document. -/
def CatalogDraft.ofTree? (tree : Tree) : Option CatalogDraft := do
  let fields ←
    tree.fields? ["policy", "conditions", "modes", "resources", "filters", "actions"]
  return {
    policy := ← Tree.listField? RuleDraft.ofTree? "policy" fields
    conditions := ← Tree.listField? RuleDraft.ofTree? "conditions" fields
    modes := ← Tree.listField? ElementDraft.ofTree? "modes" fields
    resources := ← Tree.listField? ResourceDraft.ofTree? "resources" fields
    filters := ← Tree.listField? ElementDraft.ofTree? "filters" fields
    actions := ← Tree.listField? ElementDraft.ofTree? "actions" fields }

/-- The catalog in a text. -/
def Catalog.ofText (text : String) : Construction LoadError Catalog :=
  if Text.isBlank text then pure ∅
  else
    match (Tree.ofText? (fun _ => true) text).bind CatalogDraft.ofTree? with
    | some draft => draft.build
    | none => throw .malformed

end PolicyLint
