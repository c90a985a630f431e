import PolicyLint.Catalog.Basic
import PolicyLint.Proofs.NameMap

/-!
# Growth by one thing

A catalog takes up a rule or an element type in place : a resource type gets an entry when it is
first named, and the element type is inserted name by name into the map it belongs to. To put a
catalog behind that holds the rule or the element type and nothing else comes to the same.

Main statements : a resource type that is changed name after name is merged with one that has the
change alone (`Catalog.adjustResources_extend`), and so each registration is an extension
(`Catalog.addResourceRule_eq_extend`, `Catalog.registerMode_eq_extend`,
`Catalog.registerFilter_eq_extend`, `Catalog.registerAction_eq_extend`).
-/

namespace PolicyLint

/-! ## What holds one thing -/

/-- The element under each of its names. -/
def ElementType.byName (element : ElementType) : NameMap ElementType :=
  .ofNames element.names element

theorem ElementType.insertInto_eq_union (element : ElementType) (elements : NameMap ElementType) :
    element.insertInto elements = elements ∪ element.byName :=
  NameMap.insertNames_eq_union element.names element elements

namespace Catalog

/-- What is known of several resource types, the same of each. -/
def resourcesAs (names : List String) (resource : ResourceType) : NameMap ResourceType :=
  names.foldl
    (fun m name => m.insertWith ResourceType.extend (ResourceName.normalize name) resource) ∅

/-- A filter of the given resource types, or of all if none is given. -/
def ofFilter (resources : List String) (filter : ElementType) : Catalog :=
  if resources.isEmpty then { commonFilters := filter.byName }
  else { resources := resourcesAs resources { filters := filter.byName } }

/-- An action of the given resource types, or of all if none is given. -/
def ofAction (resources : List String) (action : ElementType) : Catalog :=
  if resources.isEmpty then { commonActions := action.byName }
  else { resources := resourcesAs resources { actions := action.byName } }

end Catalog

/-! ## Resource types -/

namespace ResourceType

variable (resource : ResourceType)

theorem extend_assoc (other more : ResourceType) :
    (resource.extend other).extend more = resource.extend (other.extend more) := by
  unfold extend
  rw [List.append_assoc, NameMap.union_assoc, NameMap.union_assoc]

theorem empty_extend : ({} : ResourceType).extend resource = resource := by
  unfold extend
  rw [List.nil_append, NameMap.empty_union, NameMap.empty_union]

theorem extend_rules (rules : List Rule) :
    resource.extend { rules } = { resource with rules := resource.rules ++ rules } := by
  simp [extend]

theorem extend_filters (filters : NameMap ElementType) :
    resource.extend { filters } = { resource with filters := resource.filters ∪ filters } := by
  simp [extend]

theorem extend_actions (actions : NameMap ElementType) :
    resource.extend { actions } = { resource with actions := resource.actions ∪ actions } := by
  simp [extend]

end ResourceType

/-! ## Registrations -/

namespace Catalog

variable (catalog : Catalog)

/-- Resource types that are extended one after the other, in place. -/
theorem adjustResources_extend (names : List String) (resource : ResourceType) :
    catalog.adjustResources names (·.extend resource) =
      catalog.extend { resources := resourcesAs names resource } := by
  -- The names in front have been merged already, so the induction lets the other map vary.
  have hfold : ∀ other : NameMap ResourceType,
      names.foldl (fun m name => m.adjust {} (·.extend resource) (ResourceName.normalize name))
        (catalog.resources.mergeWith ResourceType.extend other) =
      catalog.resources.mergeWith ResourceType.extend (names.foldl (fun m name =>
        m.insertWith ResourceType.extend (ResourceName.normalize name) resource) other) := by
    induction names with
    | nil => exact fun other => rfl
    | cons name names ih =>
      intro other
      rw [List.foldl_cons, List.foldl_cons, ← ih,
        NameMap.mergeWith_insertWith ResourceType.extend_assoc ResourceType.empty_extend]
  have hresources := hfold ∅
  rw [NameMap.mergeWith_empty] at hresources
  simp [adjustResources, extend, hresources, resourcesAs]

theorem addPolicyRule_eq_extend (rule : Rule) :
    catalog.addPolicyRule rule = catalog.extend { policyRules := [rule] } := by
  simp [addPolicyRule, extend]

theorem addConditionRule_eq_extend (rule : Rule) :
    catalog.addConditionRule rule = catalog.extend { conditionRules := [rule] } := by
  simp [addConditionRule, extend]

theorem addResourceRule_eq_extend (resource : String) (rule : Rule) :
    catalog.addResourceRule resource rule =
      catalog.extend { resources := resourcesAs [resource] { rules := [rule] } } := by
  rw [← adjustResources_extend]
  simp only [ResourceType.extend_rules]
  rfl

theorem registerMode_eq_extend (mode : ElementType) :
    catalog.registerMode mode = catalog.extend { modes := mode.byName } := by
  simp [registerMode, extend, ElementType.insertInto_eq_union]

/-- A filter for all resource types changes none of them, and one for given resource types is
registered with each. -/
theorem registerFilter_eq_extend (resources : List String) (filter : ElementType) :
    catalog.registerFilter resources filter = catalog.extend (ofFilter resources filter) := by
  unfold registerFilter ofFilter
  cases resources with
  | nil => simp [adjustResources, extend, ElementType.insertInto_eq_union]
  | cons resource resources =>
    simp [← adjustResources_extend, ResourceType.extend_filters, ElementType.insertInto_eq_union]

theorem registerAction_eq_extend (resources : List String) (action : ElementType) :
    catalog.registerAction resources action = catalog.extend (ofAction resources action) := by
  unfold registerAction ofAction
  cases resources with
  | nil => simp [adjustResources, extend, ElementType.insertInto_eq_union]
  | cons resource resources =>
    simp [← adjustResources_extend, ResourceType.extend_actions, ElementType.insertInto_eq_union]

end Catalog

end PolicyLint
