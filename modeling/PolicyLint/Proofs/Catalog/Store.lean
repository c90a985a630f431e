import Mathlib.Logic.Function.Basic
import PolicyLint.Catalog.Builtin
import PolicyLint.Catalog.Text
import PolicyLint.Proofs.Catalog.Joined
import PolicyLint.Proofs.Policy.Spelling
import PolicyLint.Proofs.Rule.Program

/-!
# What catalogs store under which names

A program has catalogs in variables and makes them from each other in steps (`CatalogStore`,
`StoreStep`). A step may start a catalog over, load it, add to it, copy it or extend it by
another one, and rules may be constructed in between.

The maps of a catalog have every element under names of its own, and every resource type under
a name with a provider (`Catalog.Keyed`). The empty catalog is like that, and so is a catalog
with one registration and nothing else; everything else is made from these by extension.

Main statement : every catalog is like that after any steps, so that look-ups give an element
only to one of its names, and a resource type without a provider has nothing of its own
(`CatalogStore.keyed_run`).
-/

namespace PolicyLint

/-! ## Names of elements and of resource types -/

theorem ResourceName.dot_mem_normalize (resource : String) :
    '.' ∈ (normalize resource).toList := by
  unfold normalize
  split
  · rename_i h
    exact List.contains_iff_mem.1 h
  · simp [String.toList_append]

/-- Every element of a map is there under a name of its own. -/
def NameMap.Keyed (m : NameMap ElementType) : Prop :=
  m.All fun name element => name ∈ element.names

/-- A resource type has its elements under their names, and its own name has a provider. -/
structure ResourceType.Keyed (name : String) (resource : ResourceType) : Prop where
  dot_mem : '.' ∈ name.toList
  normalize_eq : ResourceName.normalize name = name
  filters : resource.filters.Keyed
  actions : resource.actions.Keyed

/-- A catalog has all elements under their names, and resource types with their providers. -/
structure Catalog.Keyed (catalog : Catalog) : Prop where
  modes : catalog.modes.Keyed
  commonFilters : catalog.commonFilters.Keyed
  commonActions : catalog.commonActions.Keyed
  resources : catalog.resources.All ResourceType.Keyed

theorem NameMap.keyed_empty : (∅ : NameMap ElementType).Keyed :=
  all_empty

theorem ElementType.keyed_byName (element : ElementType) : element.byName.Keyed :=
  NameMap.all_ofNames fun _ hname => hname

theorem ResourceType.Keyed.extend {name : String} {resource other : ResourceType}
    (h : resource.Keyed name) (h' : other.Keyed name) : (resource.extend other).Keyed name where
  dot_mem := h.dot_mem
  normalize_eq := h.normalize_eq
  filters := h.filters.union h'.filters
  actions := h.actions.union h'.actions

namespace Catalog

variable {catalog other : Catalog}

/-! ## Catalogs that are made -/

/-- What is known of resource types is stored under their names with the providers. -/
theorem keyed_resourcesAs (names : List String) {resource : ResourceType}
    (hfilters : resource.filters.Keyed) (hactions : resource.actions.Keyed) :
    (resourcesAs names resource).All ResourceType.Keyed := by
  have hfold : ∀ m : NameMap ResourceType, m.All ResourceType.Keyed →
      (names.foldl (fun m name => m.insertWith ResourceType.extend
        (ResourceName.normalize name) resource) m).All ResourceType.Keyed := by
    induction names with
    | nil => exact fun m hm => hm
    | cons name names ih =>
      intro m hm
      refine ih _ (hm.insertWith (fun _ _ _ => ResourceType.Keyed.extend) ?_)
      exact ⟨ResourceName.dot_mem_normalize name, ResourceName.normalize_normalize name,
        hfilters, hactions⟩
  exact hfold ∅ NameMap.all_empty

theorem keyed_empty : (∅ : Catalog).Keyed :=
  ⟨NameMap.keyed_empty, NameMap.keyed_empty, NameMap.keyed_empty, NameMap.all_empty⟩

theorem Keyed.extend (h : catalog.Keyed) (h' : other.Keyed) : (catalog.extend other).Keyed where
  modes := h.modes.union h'.modes
  commonFilters := h.commonFilters.union h'.commonFilters
  commonActions := h.commonActions.union h'.commonActions
  resources := h.resources.mergeWith (fun _ _ _ => ResourceType.Keyed.extend) h'.resources

theorem keyed_ofFilter (resources : List String) (filter : ElementType) :
    (ofFilter resources filter).Keyed := by
  have hempty := NameMap.keyed_empty
  unfold ofFilter
  split
  · exact ⟨hempty, filter.keyed_byName, hempty, NameMap.all_empty⟩
  · exact ⟨hempty, hempty, hempty, keyed_resourcesAs _ filter.keyed_byName hempty⟩

theorem keyed_ofAction (resources : List String) (action : ElementType) :
    (ofAction resources action).Keyed := by
  have hempty := NameMap.keyed_empty
  unfold ofAction
  split
  · exact ⟨hempty, hempty, action.keyed_byName, NameMap.all_empty⟩
  · exact ⟨hempty, hempty, hempty, keyed_resourcesAs _ hempty action.keyed_byName⟩

theorem keyed_alone (registration : Registration) : registration.alone.Keyed := by
  have hempty := NameMap.keyed_empty
  cases registration with
  | policyRule rule => exact ⟨hempty, hempty, hempty, NameMap.all_empty⟩
  | conditionRule rule => exact ⟨hempty, hempty, hempty, NameMap.all_empty⟩
  | resourceRule resource rule =>
    exact ⟨hempty, hempty, hempty, keyed_resourcesAs _ hempty hempty⟩
  | mode element => exact ⟨element.keyed_byName, hempty, hempty, NameMap.all_empty⟩
  | filter resources element => exact keyed_ofFilter resources element
  | action resources element => exact keyed_ofAction resources element

theorem Keyed.applyTo (h : catalog.Keyed) (registration : Registration) :
    (registration.applyTo catalog).Keyed := by
  rw [registration.applyTo_eq_extend]
  exact h.extend (keyed_alone registration)

theorem Keyed.foldl (h : catalog.Keyed) (log : List Registration) :
    (log.foldl Registration.applyTo catalog).Keyed := by
  induction log generalizing catalog with
  | nil => exact h
  | cons registration log ih => exact ih (h.applyTo registration)

theorem keyed_of_run_build {draft : CatalogDraft} {registry registry' : Registry}
    (h : draft.build.run.run registry = (.ok catalog, registry')) : catalog.Keyed := by
  obtain ⟨-, log, -, rfl, -⟩ := CatalogDraft.exists_log_of_run_build h
  exact keyed_empty.foldl log

theorem keyed_of_run_builtin {registry registry' : Registry}
    (h : builtin.run.run registry = (.ok catalog, registry')) : catalog.Keyed :=
  keyed_of_run_build h

theorem keyed_of_run_ofText {text : String} {registry registry' : Registry}
    (h : (ofText text).run.run registry = (.ok catalog, registry')) : catalog.Keyed := by
  unfold ofText at h
  split at h
  · cases h
    exact keyed_empty
  · split at h
    · exact keyed_of_run_build h
    · cases h

/-! ## Look-ups -/

/-- The elements that are stored in a catalog, as often as they are. -/
def elements (catalog : Catalog) : List ElementType :=
  catalog.modes.values ++ catalog.commonFilters.values ++ catalog.commonActions.values ++
    catalog.resources.values.flatMap fun r => r.filters.values ++ r.actions.values

theorem names_ne_nil_of_mem_values {m : NameMap ElementType} (hm : m.Keyed)
    {element : ElementType} (helement : element ∈ m.values) : element.names ≠ [] := by
  obtain ⟨name, hname⟩ := NameMap.mem_values_iff.1 helement
  exact List.ne_nil_of_mem (hm.of_get? hname)

variable (h : catalog.Keyed)
include h

/-- No resource type is stored under a name without a provider. -/
theorem Keyed.get?_resources_eq_none {resource : String} (hdot : '.' ∉ resource.toList) :
    catalog.resources.get? resource = none := by
  refine Option.eq_none_iff_forall_ne_some.2 fun r hr => ?_
  exact hdot (h.resources.of_get? hr).dot_mem

theorem Keyed.mem_names_of_filter? {resource name : String} {filter : ElementType}
    (hfilter : catalog.filter? resource name = some filter) : name ∈ filter.names := by
  rw [filter?_eq, Option.or_eq_some_iff] at hfilter
  obtain hown | ⟨-, hcommon⟩ := hfilter
  · obtain ⟨r, hr, hname⟩ := Option.bind_eq_some_iff.1 hown
    exact (h.resources.of_get? hr).filters.of_get? hname
  · exact h.commonFilters.of_get? hcommon

theorem Keyed.mem_names_of_action? {resource name : String} {action : ElementType}
    (haction : catalog.action? resource name = some action) : name ∈ action.names := by
  rw [action?_eq, Option.or_eq_some_iff] at haction
  obtain hown | ⟨-, hcommon⟩ := haction
  · obtain ⟨r, hr, hname⟩ := Option.bind_eq_some_iff.1 hown
    exact (h.resources.of_get? hr).actions.of_get? hname
  · exact h.commonActions.of_get? hcommon

/-- What a resource type without a provider has is common to all. -/
theorem Keyed.lookUps_of_dot_notMem {resource : String} (hdot : '.' ∉ resource.toList) :
    catalog.resourceRules resource = [] ∧ ∀ name,
      catalog.filter? resource name = catalog.commonFilters.get? name ∧
      catalog.action? resource name = catalog.commonActions.get? name := by
  have hnone := h.get?_resources_eq_none hdot
  unfold resourceRules filter? action?
  rw [hnone]
  exact ⟨rfl, fun name => ⟨rfl, rfl⟩⟩

/-- Every element that is stored has a name. -/
theorem Keyed.names_ne_nil {element : ElementType} (helement : element ∈ catalog.elements) :
    element.names ≠ [] := by
  simp only [elements, List.mem_append, List.mem_flatMap] at helement
  obtain ((hmode | hfilter) | haction) | ⟨r, hr, hown⟩ := helement
  · exact names_ne_nil_of_mem_values h.modes hmode
  · exact names_ne_nil_of_mem_values h.commonFilters hfilter
  · exact names_ne_nil_of_mem_values h.commonActions haction
  · obtain ⟨resource, hresource⟩ := NameMap.mem_values_iff.1 hr
    have hkeyed := h.resources.of_get? hresource
    rcases hown with hfilter | haction
    · exact names_ne_nil_of_mem_values hkeyed.filters hfilter
    · exact names_ne_nil_of_mem_values hkeyed.actions haction

end Catalog

/-! ## Steps -/

/-- Catalogs in variables, and the registry that numbers the rules of those that are loaded. -/
structure CatalogStore (ι : Type) where
  registry : Registry
  catalogs : ι → Catalog

/-- What a program does with its catalogs. -/
inductive StoreStep (ι : Type)
  | rule (request : Request)
  | new (i : ι)
  | builtin (i : ι)
  | load (i : ι) (text : String)
  | register (i : ι) (registration : Registration)
  | clone (i source : ι)
  | extend (i other : ι)

namespace CatalogStore

variable {ι : Type} [DecidableEq ι]

/-- A store with a catalog in a variable. -/
def put (store : CatalogStore ι) (i : ι) (catalog : Catalog) : CatalogStore ι :=
  { store with catalogs := Function.update store.catalogs i catalog }

/-- A store with what comes of a construction in a variable. The variable keeps its catalog if
the construction fails. -/
def construct (store : CatalogStore ι) (i : ι) (construction : Construction LoadError Catalog) :
    CatalogStore ι :=
  match construction.run.run store.registry with
  | (.ok catalog, registry) => { store with registry }.put i catalog
  | (.error _, registry) => { store with registry }

/-- The store after a step. -/
def step (store : CatalogStore ι) : StoreStep ι → CatalogStore ι
  | .rule request => { store with registry := (request.construct.run.run store.registry).2 }
  | .new i => store.put i ∅
  | .builtin i => store.construct i Catalog.builtin
  | .load i text => store.construct i (Catalog.ofText text)
  | .register i registration => store.put i (registration.applyTo (store.catalogs i))
  | .clone i source => store.put i (store.catalogs source)
  | .extend i other => store.put i ((store.catalogs i).extend (store.catalogs other))

/-- The store after steps that start with a registry and with no catalogs but empty ones. -/
def run (registry : Registry) (steps : List (StoreStep ι)) : CatalogStore ι :=
  steps.foldl step ⟨registry, fun _ => ∅⟩

/-- All catalogs of a store are keyed. -/
def Keyed (store : CatalogStore ι) : Prop :=
  ∀ i, (store.catalogs i).Keyed

omit [DecidableEq ι] in
theorem Keyed.withRegistry {store : CatalogStore ι} (h : store.Keyed) (registry : Registry) :
    Keyed { store with registry } :=
  h

theorem Keyed.put {store : CatalogStore ι} (h : store.Keyed) {catalog : Catalog}
    (hcatalog : catalog.Keyed) (i : ι) : (store.put i catalog).Keyed := by
  intro j
  by_cases hj : j = i
  · subst hj
    simpa [CatalogStore.put] using hcatalog
  · simpa [CatalogStore.put, hj] using h j

theorem Keyed.construct {store : CatalogStore ι} (h : store.Keyed)
    {construction : Construction LoadError Catalog}
    (hconstruction : ∀ catalog registry,
      construction.run.run store.registry = (.ok catalog, registry) → catalog.Keyed) (i : ι) :
    (store.construct i construction).Keyed := by
  unfold CatalogStore.construct
  split
  · rename_i catalog registry hrun
    exact (h.withRegistry registry).put (hconstruction catalog registry hrun) i
  · exact h.withRegistry _

/-- No step stores anything under a name that it does not belong to. -/
theorem Keyed.step {store : CatalogStore ι} (h : store.Keyed) (step : StoreStep ι) :
    (store.step step).Keyed := by
  cases step with
  | rule request => exact h.withRegistry _
  | new i => exact h.put Catalog.keyed_empty i
  | builtin i => exact h.construct (fun _ _ => Catalog.keyed_of_run_builtin) i
  | load i text => exact h.construct (fun _ _ => Catalog.keyed_of_run_ofText) i
  | register i registration => exact h.put ((h i).applyTo registration) i
  | clone i source => exact h.put (h source) i
  | extend i other => exact h.put ((h i).extend (h other)) i

theorem Keyed.foldl {store : CatalogStore ι} (h : store.Keyed) (steps : List (StoreStep ι)) :
    (steps.foldl CatalogStore.step store).Keyed := by
  induction steps generalizing store with
  | nil => exact h
  | cons step steps ih => exact ih (h.step step)

/-- However a catalog is made, it has elements under their names only, and resource types with
their providers only. So a look-up gives an element to one of its names, a resource type
without a provider has nothing of its own, and every element that is stored has a name. -/
theorem keyed_run (registry : Registry) (steps : List (StoreStep ι)) (i : ι) :
    let catalog := (run registry steps).catalogs i
    catalog.Keyed ∧
    (∀ name mode, catalog.mode? name = some mode → name ∈ mode.names) ∧
    (∀ resource name filter, catalog.filter? resource name = some filter → name ∈ filter.names) ∧
    (∀ resource name action, catalog.action? resource name = some action → name ∈ action.names) ∧
    (∀ resource, '.' ∉ resource.toList → catalog.resourceRules resource = [] ∧
      ∀ name, catalog.filter? resource name = catalog.commonFilters.get? name ∧
        catalog.action? resource name = catalog.commonActions.get? name) ∧
    ∀ element ∈ catalog.elements, element.names ≠ [] := by
  intro catalog
  have hstart : Keyed (⟨registry, fun _ => ∅⟩ : CatalogStore ι) := fun _ => Catalog.keyed_empty
  have h : catalog.Keyed := hstart.foldl steps i
  exact ⟨h, fun _ _ => h.modes.of_get?, fun _ _ _ => h.mem_names_of_filter?,
    fun _ _ _ => h.mem_names_of_action?, fun _ => h.lookUps_of_dot_notMem,
    fun _ => h.names_ne_nil⟩

/-- A filter of a resource type is loaded in one variable, a mode and an action are registered in
the other one, and that is extended by the first. -/
def sampleSteps : List (StoreStep Bool) :=
  [.load true "filters:\n- names: [f, g]\n  resources: [ec2]\n",
    .register false (.mode ⟨["m", "n"], []⟩), .register false (.action [] ⟨["a"], []⟩),
    .extend false true]

theorem keyed_run_sample : ∃ mode filter action,
    ((run {} sampleSteps).catalogs false).mode? "n" = some mode ∧ "n" ∈ mode.names ∧
    ((run {} sampleSteps).catalogs false).filter? "aws.ec2" "g" = some filter ∧
      "g" ∈ filter.names ∧
    ((run {} sampleSteps).catalogs false).action? "ec2" "a" = some action ∧
      "a" ∈ action.names ∧ action ∈ ((run {} sampleSteps).catalogs false).elements ∧
      action.names ≠ [] ∧
    '.' ∉ "ec2".toList ∧ ((run {} sampleSteps).catalogs false).resourceRules "ec2" = [] := by
  obtain ⟨-, hmodes, hfilters, hactions, hbare, hnamed⟩ := keyed_run {} sampleSteps false
  have hfound : (((run {} sampleSteps).catalogs false).mode? "n").isSome ∧
      (((run {} sampleSteps).catalogs false).filter? "aws.ec2" "g").isSome ∧
      ∃ action ∈ ((run {} sampleSteps).catalogs false).elements,
        ((run {} sampleSteps).catalogs false).action? "ec2" "a" = some action := by
    decide +kernel
  obtain ⟨hmode, hfilter, action, helement, haction⟩ := hfound
  obtain ⟨mode, hmode⟩ := Option.isSome_iff_exists.1 hmode
  obtain ⟨filter, hfilter⟩ := Option.isSome_iff_exists.1 hfilter
  have hdot : '.' ∉ "ec2".toList := by
    decide
  exact ⟨mode, filter, action, hmode, hmodes _ _ hmode, hfilter, hfilters _ _ _ hfilter, haction,
    hactions _ _ _ haction, helement, hnamed _ helement, hdot, (hbare _ hdot).1⟩

end CatalogStore

end PolicyLint
