import Mathlib.Data.List.Basic
import PolicyLint.Proofs.Catalog.Lookup

/-!
# The log of a catalog

A catalog is made in steps (`CatalogStep`) : a rule is added, an element is registered, or the
catalog is extended by another one that is made in the same way. The log of the steps has
their registrations in order, with the log of the other catalog in the place of an extension
(`CatalogStep.logAll`).

`Catalog.Follows catalog log` says each look-up of a catalog in terms of a log : rules are those
of the log in its order, and of several elements that answer to a name the last one counts,
where one for a resource type counts before any that is for all of them.

Main statement : a catalog follows the log of the steps that make it (`follows_applyAll`).
-/

namespace PolicyLint

/-! ## Steps and their log -/

/-- What a catalog takes up in one step. -/
inductive Registration
  | policyRule (rule : Rule)
  | conditionRule (rule : Rule)
  | resourceRule (resource : String) (rule : Rule)
  | mode (element : ElementType)
  | filter (resources : List String) (element : ElementType)
  | action (resources : List String) (element : ElementType)

namespace Registration

/-- The catalog with a registration. -/
def applyTo (catalog : Catalog) : Registration → Catalog
  | policyRule rule => catalog.addPolicyRule rule
  | conditionRule rule => catalog.addConditionRule rule
  | resourceRule resource rule => catalog.addResourceRule resource rule
  | mode element => catalog.registerMode element
  | filter resources element => catalog.registerFilter resources element
  | action resources element => catalog.registerAction resources element

/-- The rule on policies that is added. -/
def policyRule? : Registration → Option Rule
  | policyRule rule => some rule
  | _ => none

/-- The rule on condition blocks that is added. -/
def conditionRule? : Registration → Option Rule
  | conditionRule rule => some rule
  | _ => none

/-- The rule on a resource type that is added, the type given with its provider. -/
def resourceRule? (resource : String) : Registration → Option Rule
  | resourceRule name rule =>
    if ResourceName.normalize name = resource then some rule else none
  | _ => none

/-- The execution mode that is registered. -/
def mode? : Registration → Option ElementType
  | mode element => some element
  | _ => none

/-- The filter that is registered, with the resource types it is for. -/
def filter? : Registration → Option (List String × ElementType)
  | filter resources element => some (resources, element)
  | _ => none

/-- The action that is registered, with the resource types it is for. -/
def action? : Registration → Option (List String × ElementType)
  | action resources element => some (resources, element)
  | _ => none

end Registration

/-- A step in the making of a catalog. -/
inductive CatalogStep
  | register (registration : Registration)
  | extend (steps : List CatalogStep)

namespace CatalogStep

mutual

/-- The catalog after a step. -/
def applyTo (catalog : Catalog) : CatalogStep → Catalog
  | register registration => registration.applyTo catalog
  | extend steps => catalog.extend (applyAll ∅ steps)

/-- The catalog after steps. -/
def applyAll (catalog : Catalog) : List CatalogStep → Catalog
  | [] => catalog
  | step :: steps => applyAll (step.applyTo catalog) steps

end

mutual

/-- The registrations of a step. -/
def log : CatalogStep → List Registration
  | register registration => [registration]
  | extend steps => logAll steps

/-- The registrations of steps, in order. -/
def logAll : List CatalogStep → List Registration
  | [] => []
  | step :: steps => step.log ++ logAll steps

end

end CatalogStep

/-! ## What a log says -/

/-- The last item of a list that has a property. -/
def lastOf {α : Type} (p : α → Prop) [DecidablePred p] (items : List α) : Option α :=
  (items.filter fun item => p item).getLast?

/-- Whether an element is registered for a resource type, under a name. -/
def ServesResource (resource name : String) (registered : List String × ElementType) : Prop :=
  resource ∈ registered.1.map ResourceName.normalize ∧ name ∈ registered.2.names

/-- Whether an element is registered for all resource types, under a name. -/
def ServesAll (name : String) (registered : List String × ElementType) : Prop :=
  registered.1 = [] ∧ name ∈ registered.2.names

instance (resource name : String) : DecidablePred (ServesResource resource name) :=
  fun _ => inferInstanceAs (Decidable (_ ∧ _))

instance (name : String) : DecidablePred (ServesAll name) :=
  fun _ => inferInstanceAs (Decidable (_ ∧ _))

/-- The element with a name that counts for a resource type : the last that is registered for
it, or else the last that is registered for all. -/
def lastServing (resource name : String) (registered : List (List String × ElementType)) :
    Option ElementType :=
  ((lastOf (ServesResource resource name) registered).or
    (lastOf (ServesAll name) registered)).map Prod.snd

/-- Every look-up of a catalog, in terms of a log. -/
structure Catalog.Follows (catalog : Catalog) (log : List Registration) : Prop where
  policyRules : catalog.policyRules = log.filterMap Registration.policyRule?
  conditionRules : catalog.conditionRules = log.filterMap Registration.conditionRule?
  resourceRules : ∀ resource,
    catalog.resourceRules resource = log.filterMap (Registration.resourceRule? resource)
  mode? : ∀ name, catalog.mode? name =
    lastOf (fun mode => name ∈ mode.names) (log.filterMap Registration.mode?)
  filter? : ∀ resource name, catalog.filter? resource name =
    lastServing resource name (log.filterMap Registration.filter?)
  action? : ∀ resource name, catalog.action? resource name =
    lastServing resource name (log.filterMap Registration.action?)

theorem lastOf_append {α : Type} (p : α → Prop) [DecidablePred p] (items rest : List α) :
    lastOf p (items ++ rest) = (lastOf p rest).or (lastOf p items) := by
  rw [lastOf, List.filter_append, List.getLast?_append]
  rfl

theorem lastOf_singleton {α : Type} (p : α → Prop) [DecidablePred p] (item : α) :
    lastOf p [item] = if p item then some item else none := by
  by_cases h : p item <;> simp [lastOf, h]

theorem lastOf_eq_some {α : Type} {p : α → Prop} [DecidablePred p] {items : List α} {item : α}
    (h : lastOf p items = some item) : item ∈ items ∧ p item := by
  have hmem := List.mem_of_getLast? h
  exact ⟨List.mem_of_mem_filter hmem, by simpa using (List.mem_filter.1 hmem).2⟩

/-- An element that counts for a name has the name, and is registered. -/
theorem exists_of_lastServing {resource name : String} {log : List Registration}
    {element? : Registration → Option (List String × ElementType)} {element : ElementType}
    (h : lastServing resource name (log.filterMap element?) = some element) :
    name ∈ element.names ∧
      ∃ registration ∈ log, ∃ resources, element? registration = some (resources, element) := by
  obtain ⟨⟨resources, element⟩, hlast, rfl⟩ := Option.map_eq_some_iff.1 h
  have hlast : (resources, element) ∈ log.filterMap element? ∧ name ∈ element.names := by
    rcases Option.or_eq_some_iff.1 hlast with hlast | ⟨-, hlast⟩
    · obtain ⟨hmem, -, hname⟩ := lastOf_eq_some hlast
      exact ⟨hmem, hname⟩
    · obtain ⟨hmem, -, hname⟩ := lastOf_eq_some hlast
      exact ⟨hmem, hname⟩
  obtain ⟨registration, hmem, hregistered⟩ := List.mem_filterMap.1 hlast.1
  exact ⟨hlast.2, registration, hmem, resources, hregistered⟩

/-! ## Elements of resource types and of all -/

/-- A part of the resource types of a catalog and the elements common to all of them hold, for
every name, the last element registered. -/
structure Serves (part : ResourceType → NameMap ElementType)
    (resources : NameMap ResourceType) (common : NameMap ElementType)
    (registered : List (List String × ElementType)) : Prop where
  resource : ∀ resource name, resources.element? part resource name =
    (lastOf (ServesResource resource name) registered).map Prod.snd
  common : ∀ name, common.get? name = (lastOf (ServesAll name) registered).map Prod.snd

namespace Serves

variable {part : ResourceType → NameMap ElementType}
  {resources resources' : NameMap ResourceType} {common common' : NameMap ElementType}
  {registered registered' : List (List String × ElementType)}

theorem extend (hpart : Grows part) (h : Serves part resources common registered)
    (h' : Serves part resources' common' registered') :
    Serves part (resources.mergeWith ResourceType.extend resources') (common ∪ common')
      (registered ++ registered') where
  resource resource name := by
    rw [NameMap.element?_mergeWith hpart, h.resource, h'.resource, lastOf_append, Option.map_or]
  common name := by
    rw [NameMap.get?_union, h.common, h'.common, lastOf_append, Option.map_or]

theorem lookup (h : Serves part resources common registered) (resource name : String) :
    (resources.element? part resource name).or (common.get? name) =
      lastServing resource name registered := by
  rw [h.resource, h.common, lastServing, Option.map_or]

/-- An element for given resource types. -/
theorem resourcesAs (hpart : Grows part) {names : List String} (hnames : names ≠ [])
    {element : ElementType} {r : ResourceType} (hr : part r = element.byName) :
    Serves part (Catalog.resourcesAs names r) ∅ [(names, element)] where
  resource resource name := by
    rw [Catalog.element?_resourcesAs hpart, hr, ElementType.byName, NameMap.get?_ofNames,
      lastOf_singleton]
    by_cases hmem : resource ∈ names.map ResourceName.normalize <;>
      by_cases hname : name ∈ element.names <;> simp [ServesResource, hmem, hname]
  common name := by
    rw [lastOf_singleton, if_neg fun h => hnames h.1]
    rfl

/-- An element for all resource types. -/
theorem byName (element : ElementType) : Serves part ∅ element.byName [([], element)] where
  resource resource name := by
    rw [lastOf_singleton, if_neg fun h => List.not_mem_nil h.1]
    rfl
  common name := by
    rw [ElementType.byName, NameMap.get?_ofNames, lastOf_singleton]
    by_cases hname : name ∈ element.names <;> simp [ServesAll, hname]

/-- Resource types without elements. -/
theorem empty (hresources : ∀ resource name, resources.element? part resource name = none) :
    Serves part resources ∅ [] where
  resource := hresources
  common _ := rfl

end Serves

/-! ## Catalogs and their logs -/

namespace Catalog

/-- Every part of a catalog, in terms of a log. -/
structure Records (catalog : Catalog) (log : List Registration) : Prop where
  policyRules : catalog.policyRules = log.filterMap Registration.policyRule?
  conditionRules : catalog.conditionRules = log.filterMap Registration.conditionRule?
  resourceRules : ∀ resource, catalog.resources.rulesOf resource =
    log.filterMap (Registration.resourceRule? resource)
  modes : ∀ name, catalog.modes.get? name =
    lastOf (fun mode => name ∈ mode.names) (log.filterMap Registration.mode?)
  filters : Serves ResourceType.filters catalog.resources catalog.commonFilters
    (log.filterMap Registration.filter?)
  actions : Serves ResourceType.actions catalog.resources catalog.commonActions
    (log.filterMap Registration.action?)

variable {catalog other : Catalog} {log log' : List Registration}

theorem Records.follows (h : catalog.Records log) : catalog.Follows log where
  policyRules := h.policyRules
  conditionRules := h.conditionRules
  resourceRules := h.resourceRules
  mode? := h.modes
  filter? resource name := by
    rw [filter?_eq, h.filters.lookup]
  action? resource name := by
    rw [action?_eq, h.actions.lookup]

theorem records_empty : (∅ : Catalog).Records [] where
  policyRules := rfl
  conditionRules := rfl
  resourceRules _ := rfl
  modes _ := rfl
  filters := .empty fun _ _ => rfl
  actions := .empty fun _ _ => rfl

/-- The log of an extension is spliced in behind. -/
theorem Records.extend (h : catalog.Records log) (h' : other.Records log') :
    (catalog.extend other).Records (log ++ log') where
  policyRules := by
    rw [List.filterMap_append, ← h.policyRules, ← h'.policyRules]
    rfl
  conditionRules := by
    rw [List.filterMap_append, ← h.conditionRules, ← h'.conditionRules]
    rfl
  resourceRules resource := by
    rw [List.filterMap_append, ← h.resourceRules, ← h'.resourceRules]
    exact NameMap.rulesOf_mergeWith _ _ _
  modes name := by
    rw [List.filterMap_append, lastOf_append, ← h.modes, ← h'.modes]
    exact NameMap.get?_union _ _ _
  filters := by
    rw [List.filterMap_append]
    exact h.filters.extend grows_filters h'.filters
  actions := by
    rw [List.filterMap_append]
    exact h.actions.extend grows_actions h'.actions

end Catalog

namespace Registration

/-- The catalog that holds one registration and nothing else. -/
def alone : Registration → Catalog
  | policyRule rule => { policyRules := [rule] }
  | conditionRule rule => { conditionRules := [rule] }
  | resourceRule resource rule =>
    { resources := Catalog.resourcesAs [resource] { rules := [rule] } }
  | mode element => { modes := element.byName }
  | filter resources element => Catalog.ofFilter resources element
  | action resources element => Catalog.ofAction resources element

/-- A registration in place is an extension by what it holds. -/
theorem applyTo_eq_extend (catalog : Catalog) (registration : Registration) :
    registration.applyTo catalog = catalog.extend registration.alone := by
  cases registration with
  | policyRule rule => exact catalog.addPolicyRule_eq_extend rule
  | conditionRule rule => exact catalog.addConditionRule_eq_extend rule
  | resourceRule resource rule => exact catalog.addResourceRule_eq_extend resource rule
  | mode element => exact catalog.registerMode_eq_extend element
  | filter resources element => exact catalog.registerFilter_eq_extend resources element
  | action resources element => exact catalog.registerAction_eq_extend resources element

theorem element?_resourcesAs_eq_none {part : ResourceType → NameMap ElementType}
    (hpart : Grows part) {r : ResourceType} (hr : part r = ∅) (names : List String)
    (resource name : String) :
    (Catalog.resourcesAs names r).element? part resource name = none := by
  rw [Catalog.element?_resourcesAs hpart, hr, NameMap.get?_empty, ite_self]

theorem rulesOf_resourcesAs_eq_nil {r : ResourceType} (hr : r.rules = []) (names : List String)
    (resource : String) : (Catalog.resourcesAs names r).rulesOf resource = [] := by
  rw [Catalog.rulesOf_resourcesAs, hr]
  simp

theorem records_alone (registration : Registration) :
    registration.alone.Records [registration] := by
  cases registration with
  | policyRule rule =>
    exact ⟨rfl, rfl, fun _ => rfl, fun _ => rfl, .empty fun _ _ => rfl, .empty fun _ _ => rfl⟩
  | conditionRule rule =>
    exact ⟨rfl, rfl, fun _ => rfl, fun _ => rfl, .empty fun _ _ => rfl, .empty fun _ _ => rfl⟩
  | resourceRule resource rule =>
    refine ⟨rfl, rfl, fun name => ?_, fun _ => rfl,
      .empty (element?_resourcesAs_eq_none grows_filters rfl _),
      .empty (element?_resourcesAs_eq_none grows_actions rfl _)⟩
    rw [alone, Catalog.rulesOf_resourcesAs]
    by_cases h : ResourceName.normalize resource = name <;> simp [resourceRule?, h]
  | mode element =>
    refine ⟨rfl, rfl, fun _ => rfl, fun name => ?_, .empty fun _ _ => rfl,
      .empty fun _ _ => rfl⟩
    rw [alone, ElementType.byName, NameMap.get?_ofNames]
    exact (lastOf_singleton (fun mode : ElementType => name ∈ mode.names) element).symm
  | filter resources element =>
    by_cases hnil : resources = []
    · subst hnil
      exact ⟨rfl, rfl, fun _ => rfl, fun _ => rfl, .byName element, .empty fun _ _ => rfl⟩
    · rw [alone, Catalog.ofFilter, if_neg (by simpa using hnil)]
      exact ⟨rfl, rfl, rulesOf_resourcesAs_eq_nil rfl _, fun _ => rfl,
        .resourcesAs grows_filters hnil rfl,
        .empty (element?_resourcesAs_eq_none grows_actions rfl _)⟩
  | action resources element =>
    by_cases hnil : resources = []
    · subst hnil
      exact ⟨rfl, rfl, fun _ => rfl, fun _ => rfl, .empty fun _ _ => rfl, .byName element⟩
    · rw [alone, Catalog.ofAction, if_neg (by simpa using hnil)]
      exact ⟨rfl, rfl, rulesOf_resourcesAs_eq_nil rfl _, fun _ => rfl,
        .empty (element?_resourcesAs_eq_none grows_filters rfl _),
        .resourcesAs grows_actions hnil rfl⟩

end Registration

namespace CatalogStep

mutual

/-- A step adds its registrations to the log. -/
theorem records_applyTo : ∀ (step : CatalogStep) {catalog : Catalog} {log : List Registration},
    catalog.Records log → (step.applyTo catalog).Records (log ++ step.log)
  | register registration, catalog, log, h => by
    rw [applyTo, registration.applyTo_eq_extend]
    exact h.extend registration.records_alone
  | extend steps, catalog, log, h => by
    rw [applyTo, CatalogStep.log]
    exact h.extend (records_applyAll steps Catalog.records_empty)

/-- Steps add their registrations to the log, in order. -/
theorem records_applyAll : ∀ (steps : List CatalogStep) {catalog : Catalog}
    {log : List Registration},
    catalog.Records log → (applyAll catalog steps).Records (log ++ logAll steps)
  | [], catalog, log, h => by
    rw [applyAll, logAll, List.append_nil]
    exact h
  | step :: steps, catalog, log, h => by
    rw [applyAll, logAll, ← List.append_assoc]
    exact records_applyAll steps (records_applyTo step h)

end

/-- A catalog that is made in steps follows their log. -/
theorem follows_applyAll (steps : List CatalogStep) :
    (applyAll ∅ steps).Follows (logAll steps) :=
  (records_applyAll steps Catalog.records_empty).follows

end CatalogStep

end PolicyLint
