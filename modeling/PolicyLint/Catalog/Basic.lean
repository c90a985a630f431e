import PolicyLint.NameMap
import PolicyLint.Policy.Basic
import PolicyLint.Report.Basic

/-!
# Catalogs of rules

A `Catalog` says which rules each element of a policy declares : the policy itself, its
condition block, its execution mode, its resource type, and the filters and actions of each
resource type. An element type answers to several names, of which the first is the current
one.

A catalog grows by rules, which are added after those it has, and by element types, which take
over the names they share with earlier ones. `Catalog.extend` puts a whole catalog after another
one and does so with all it holds.
-/

namespace PolicyLint

/-- The names of an element, and the rules it declares. -/
structure ElementType where
  names : List String
  rules : List Rule
deriving DecidableEq

namespace ElementType

/-- The current name. -/
def name (element : ElementType) : String :=
  element.names.headD ""

/-- Elements with one more under each of its names. -/
def insertInto (element : ElementType) (elements : NameMap ElementType) : NameMap ElementType :=
  elements.insertNames element.names element

end ElementType

/-- The rules of a resource type, and its filters and actions by name. -/
structure ResourceType where
  rules : List Rule := []
  filters : NameMap ElementType := ∅
  actions : NameMap ElementType := ∅

/-- A resource type with what another knows of it after it. -/
def ResourceType.extend (resource other : ResourceType) : ResourceType where
  rules := resource.rules ++ other.rules
  filters := resource.filters ∪ other.filters
  actions := resource.actions ∪ other.actions

/-- The rules of all elements of a policy. Common filters and actions are those of every
resource type. -/
structure Catalog where
  policyRules : List Rule := []
  conditionRules : List Rule := []
  modes : NameMap ElementType := ∅
  resources : NameMap ResourceType := ∅
  commonFilters : NameMap ElementType := ∅
  commonActions : NameMap ElementType := ∅

namespace Catalog

instance : EmptyCollection Catalog :=
  ⟨{}⟩

instance : Inhabited Catalog :=
  ⟨∅⟩

/-! ## Growth -/

/-- A catalog with another after it. -/
def extend (catalog other : Catalog) : Catalog where
  policyRules := catalog.policyRules ++ other.policyRules
  conditionRules := catalog.conditionRules ++ other.conditionRules
  modes := catalog.modes ∪ other.modes
  resources := catalog.resources.mergeWith ResourceType.extend other.resources
  commonFilters := catalog.commonFilters ∪ other.commonFilters
  commonActions := catalog.commonActions ∪ other.commonActions

variable (catalog : Catalog)

/-- Change what is known of resource types, one after the other. -/
def adjustResources (names : List String) (f : ResourceType → ResourceType) : Catalog :=
  { catalog with
    resources := names.foldl (fun m name => m.adjust {} f (ResourceName.normalize name))
      catalog.resources }

/-- Add a rule on the fields of a policy. -/
def addPolicyRule (rule : Rule) : Catalog :=
  { catalog with policyRules := catalog.policyRules ++ [rule] }

/-- Add a rule on the condition block of a policy. -/
def addConditionRule (rule : Rule) : Catalog :=
  { catalog with conditionRules := catalog.conditionRules ++ [rule] }

/-- Add a rule on a resource type. -/
def addResourceRule (resource : String) (rule : Rule) : Catalog :=
  catalog.adjustResources [resource] fun r => { r with rules := r.rules ++ [rule] }

/-- Register an execution mode under its names. -/
def registerMode (mode : ElementType) : Catalog :=
  { catalog with modes := mode.insertInto catalog.modes }

/-- Register a filter under its names, for the given resource types, or for all if none is
given. -/
def registerFilter (resources : List String) (filter : ElementType) : Catalog :=
  let catalog :=
    if resources.isEmpty then
      { catalog with commonFilters := filter.insertInto catalog.commonFilters }
    else catalog
  catalog.adjustResources resources fun r => { r with filters := filter.insertInto r.filters }

/-- Register an action under its names, for the given resource types, or for all if none is
given. -/
def registerAction (resources : List String) (action : ElementType) : Catalog :=
  let catalog :=
    if resources.isEmpty then
      { catalog with commonActions := action.insertInto catalog.commonActions }
    else catalog
  catalog.adjustResources resources fun r => { r with actions := action.insertInto r.actions }

/-! ## Look-up -/

/-- The rules on a resource type. -/
def resourceRules (resource : String) : List Rule :=
  ((catalog.resources.get? resource).map ResourceType.rules).getD []

/-- The execution mode with a name. -/
def mode? (name : String) : Option ElementType :=
  catalog.modes.get? name

/-- The filter of a resource type with a name. A filter of that resource type comes before one
of all. -/
def filter? (resource name : String) : Option ElementType :=
  ((catalog.resources.get? resource).bind fun r => r.filters.get? name) <|>
    catalog.commonFilters.get? name

/-- The action of a resource type with a name. An action of that resource type comes before
one of all. -/
def action? (resource name : String) : Option ElementType :=
  ((catalog.resources.get? resource).bind fun r => r.actions.get? name) <|>
    catalog.commonActions.get? name

end Catalog

/-! ## Listing -/

/-- A rule of a catalog, with the section of a report that it contributes to and the name of
the element that declares it, which is empty for rules on policies and condition blocks. -/
structure ListedRule where
  place : Section
  element : String
  rule : Rule
deriving DecidableEq

namespace ListedRule

/-- The rules of a list, as declared by one element. -/
def ofRules (place : Section) (element : String) (rules : List Rule) : List ListedRule :=
  rules.map fun rule => ⟨place, element, rule⟩

/-- The rules of elements, by their current names. -/
def ofElements (place : Section) (elements : List ElementType) : List ListedRule :=
  elements.flatMap fun element => ofRules place element.name element.rules

/-- A list with every rule at its first place only. -/
def distinct : List ListedRule → List ListedRule
  | [] => []
  | listed :: rest =>
    listed :: (distinct rest).filter fun other => other.rule.id != listed.rule.id

end ListedRule

namespace Catalog

variable (catalog : Catalog)

/-- The rules of a catalog as often as they are declared, section after section. -/
def declaredRules : List ListedRule :=
  ListedRule.ofRules .attributes "" catalog.policyRules ++
  ListedRule.ofRules .condition "" catalog.conditionRules ++
  ListedRule.ofElements .mode catalog.modes.values ++
  catalog.resources.entries.flatMap
    (fun (name, r) => ListedRule.ofRules .resource name r.rules) ++
  ListedRule.ofElements .filters (catalog.resources.values.flatMap fun r => r.filters.values) ++
  ListedRule.ofElements .filters catalog.commonFilters.values ++
  ListedRule.ofElements .actions (catalog.resources.values.flatMap fun r => r.actions.values) ++
  ListedRule.ofElements .actions catalog.commonActions.values

/-- The rules of a catalog, each once, section after section. -/
def rules : List ListedRule :=
  ListedRule.distinct catalog.declaredRules

end Catalog

end PolicyLint
