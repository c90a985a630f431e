import PolicyLint.Catalog.Basic

/-!
# Drafts of catalogs

A `CatalogDraft` is a catalog as its text describes it : its rules have no number yet, and
their removal dates are untyped data. `CatalogDraft.build` constructs the rules, section after
section, and from them the catalog. It stops at the first rule or element that is not valid;
the rules constructed before that keep their numbers.
-/

namespace PolicyLint

/-- What the draft of a rule discourages. -/
inductive RuleForm
  | typeAlias (name : String)
  | field (name replacement : String)
  | element (kind : ElementKind) (name replacement : String)
  | optionalField (name : String)
  | optionalFields (names : List String)
deriving DecidableEq, Repr

/-- The usage that a form stands for. -/
def RuleForm.kind : RuleForm → RuleKind
  | typeAlias name => .typeAlias name
  | field name replacement => .field name replacement
  | element kind name replacement => .element kind name replacement
  | optionalField name => .optionality [name]
  | optionalFields names => .optionality names

/-- The draft of a rule. -/
structure RuleDraft where
  form : RuleForm
  removedAfter : Value := .null
  link : Option String := none

/-- The draft of an execution mode, a filter or an action. -/
structure ElementDraft where
  names : List String
  resources : List String := []
  deprecations : List RuleDraft := []

/-- The draft of a resource type. -/
structure ResourceDraft where
  resource : String
  deprecations : List RuleDraft := []

/-- The draft of a catalog. -/
structure CatalogDraft where
  policy : List RuleDraft := []
  conditions : List RuleDraft := []
  modes : List ElementDraft := []
  resources : List ResourceDraft := []
  filters : List ElementDraft := []
  actions : List ElementDraft := []

/-! ## Construction -/

/-- Construct a rule. Its removal date is read first. -/
def RuleDraft.build (draft : RuleDraft) : Construction RuleError Rule := do
  let removedAfter ← Construction.ofExcept (RemovalDate.ofValue draft.removedAfter)
  let rule ← Registry.register draft.form.kind removedAfter
  return match draft.link with
    | some link => rule.withLink link
    | none => rule

/-- Construct the rules at a place of a catalog. -/
def RuleDraft.buildAll (place : String) (drafts : List RuleDraft) :
    Construction LoadError (List Rule) :=
  drafts.mapM fun draft => draft.build.mapError (.invalidRule place)

/-- Construct the rules of an element in the section `place`. It must have a name. -/
def ElementDraft.build (place : String) (draft : ElementDraft) :
    Construction LoadError ElementType := do
  match draft.names with
  | [] => throw (.unnamedElement place)
  | name :: _ =>
    let rules ← RuleDraft.buildAll (place ++ "." ++ name) draft.deprecations
    return ⟨draft.names, rules⟩

/-- Construct the elements of the section `place`, each with the resource types it is for. -/
def ElementDraft.buildAll (place : String) (drafts : List ElementDraft) :
    Construction LoadError (List (List String × ElementType)) :=
  drafts.mapM fun draft => do
    let element ← draft.build place
    return (draft.resources, element)

/-- Construct the rules of a resource type, each with the name of the type. -/
def ResourceDraft.build (draft : ResourceDraft) :
    Construction LoadError (List (String × Rule)) := do
  let rules ← RuleDraft.buildAll ("resources." ++ draft.resource) draft.deprecations
  return rules.map fun rule => (draft.resource, rule)

/-- Construct the rules of a catalog, and the catalog from them. -/
def CatalogDraft.build (draft : CatalogDraft) : Construction LoadError Catalog := do
  let policyRules ← RuleDraft.buildAll "policy" draft.policy
  let conditionRules ← RuleDraft.buildAll "conditions" draft.conditions
  let modes ← ElementDraft.buildAll "modes" draft.modes
  let resourceRules ← draft.resources.mapM ResourceDraft.build
  let filters ← ElementDraft.buildAll "filters" draft.filters
  let actions ← ElementDraft.buildAll "actions" draft.actions
  let catalog : Catalog := { policyRules, conditionRules }
  let catalog := modes.foldl (fun c (_, mode) => c.registerMode mode) catalog
  let catalog := resourceRules.flatten.foldl (fun c (name, rule) => c.addResourceRule name rule)
    catalog
  let catalog := filters.foldl (fun c (resources, filter) => c.registerFilter resources filter)
    catalog
  return actions.foldl (fun c (resources, action) => c.registerAction resources action) catalog

end PolicyLint
