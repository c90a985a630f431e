import PolicyLint.Proofs.Catalog.Build

/-!
# Registrations by section

Each registration of a log belongs to a section of the catalog (`Registration.place`), and the
entries of a draft come section after section. `Section.group` puts items in that order and
keeps the order of those that belong to one section.

`Catalog.Consists catalog log` says of every part of a catalog how it comes from a log, with the
resource types that the catalog knows of.

Main statement : a catalog is determined by the registrations of each section in their order,
whatever the order of registrations in different sections (`Catalog.Consists.unique`).
-/

namespace PolicyLint

/-! ## Items in the order of their sections -/

namespace Section

variable {α β : Type} {place : α → Section} {place' : β → Section}

/-- The items of a section. -/
def pick (place : α → Section) (s : Section) (items : List α) : List α :=
  items.filter fun item => place item = s

/-- The items section after section. -/
def group (place : α → Section) (items : List α) : List α :=
  Section.all.flatMap fun s => pick place s items

theorem pick_append (s : Section) (items rest : List α) :
    pick place s (items ++ rest) = pick place s items ++ pick place s rest :=
  List.filter_append _ _

/-- Of items that are put together section after section, those of one section are its part. -/
theorem pick_flatMap_all {part : Section → List α} (h : ∀ s, ∀ item ∈ part s, place item = s)
    (s : Section) : pick place s (Section.all.flatMap part) = part s := by
  have hpart : ∀ s', pick place s (part s') = if s' = s then part s' else [] := by
    intro s'
    unfold pick
    split
    · rename_i heq
      exact List.filter_eq_self.2 fun item hitem => by simp [h s' item hitem, heq]
    · rename_i hne
      exact List.filter_eq_nil_iff.2 fun item hitem => by simp [h s' item hitem, hne]
  simp only [Section.all, List.flatMap_cons, List.flatMap_nil, pick_append, hpart]
  cases s <;> simp [pick]

theorem place_of_mem_pick {s : Section} {items : List α} {item : α}
    (h : item ∈ pick place s items) : place item = s := by
  simpa using (List.mem_filter.1 h).2

theorem pick_group (s : Section) (items : List α) :
    pick place s (group place items) = pick place s items :=
  pick_flatMap_all (fun _ _ h => place_of_mem_pick h) s

theorem perm_group (items : List α) : (group place items).Perm items := by
  classical
  rw [List.perm_iff_count]
  intro item
  have hpick : ∀ s, (pick place s items).count item =
      if place item = s then items.count item else 0 := by
    intro s
    split
    · rename_i heq
      exact List.count_filter (by simpa using heq)
    · rename_i hne
      exact List.count_eq_zero.2 fun hmem => hne (place_of_mem_pick hmem)
  simp only [group, Section.all, List.flatMap_cons, List.flatMap_nil, List.count_append, hpick]
  cases place item <;> simp

theorem forall₂_group {R : α → β → Prop} {items : List α} {items' : List β}
    (hplace : ∀ {x y}, R x y → place x = place' y) (h : List.Forall₂ R items items') :
    List.Forall₂ R (group place items) (group place' items') := by
  have hpick : ∀ s, List.Forall₂ R (pick place s items) (pick place' s items') := fun s =>
    List.rel_filter (fun x y hxy => by simp [hplace hxy]) h
  simp only [group, Section.all, List.flatMap_cons, List.flatMap_nil]
  exact List.rel_append (hpick _) (List.rel_append (hpick _) (List.rel_append (hpick _)
    (List.rel_append (hpick _) (List.rel_append (hpick _) (List.rel_append (hpick _) .nil)))))

end Section

/-! ## Entries and registrations -/

/-- The section that a registration belongs to. -/
def Registration.place : Registration → Section
  | policyRule _ => .attributes
  | conditionRule _ => .condition
  | mode _ => .mode
  | resourceRule .. => .resource
  | filter .. => .filters
  | action .. => .actions

namespace CatalogEntry

/-- The section that an entry belongs to. -/
def place : CatalogEntry → Section
  | policyRule _ => .attributes
  | conditionRule _ => .condition
  | mode _ => .mode
  | resourceRule .. => .resource
  | filter _ => .filters
  | action _ => .actions

theorem Describes.place_eq {entry : CatalogEntry} {registration : Registration}
    (h : entry.Describes registration) : entry.place = registration.place := by
  cases h <;> rfl

end CatalogEntry

/-- Two drafts put together, in every section the entries of the first in front. -/
instance : Append CatalogDraft where
  append draft other :=
    { policy := draft.policy ++ other.policy
      conditions := draft.conditions ++ other.conditions
      modes := draft.modes ++ other.modes
      resources := draft.resources ++ other.resources
      filters := draft.filters ++ other.filters
      actions := draft.actions ++ other.actions }

namespace CatalogDraft

variable (draft other : CatalogDraft)

/-- The entries of a section. -/
def entriesOf : Section → List CatalogEntry
  | .attributes => draft.policy.map .policyRule
  | .condition => draft.conditions.map .conditionRule
  | .mode => draft.modes.map .mode
  | .resource => draft.resources.flatMap fun resource =>
      resource.deprecations.map (.resourceRule resource.resource)
  | .filters => draft.filters.map .filter
  | .actions => draft.actions.map .action

theorem entries_eq_flatMap : draft.entries = Section.all.flatMap draft.entriesOf := by
  simp [entries, Section.all, entriesOf]

theorem place_of_mem_entriesOf (s : Section) : ∀ entry ∈ draft.entriesOf s, entry.place = s := by
  intro entry hentry
  cases s <;> simp only [entriesOf, List.mem_map, List.mem_flatMap] at hentry
  case resource =>
    obtain ⟨resource, -, rule, -, rfl⟩ := hentry
    rfl
  all_goals
    obtain ⟨rule, -, rfl⟩ := hentry
    rfl

theorem entriesOf_append (s : Section) :
    (draft ++ other).entriesOf s = draft.entriesOf s ++ other.entriesOf s := by
  cases s with
  | resource => exact List.flatMap_append
  | _ => exact List.map_append

/-- The entries of two drafts put together are those of both, section after section. -/
theorem entries_append : (draft ++ other).entries =
    Section.group CatalogEntry.place (draft.entries ++ other.entries) := by
  simp only [Section.group, Section.pick_append, entries_eq_flatMap,
    Section.pick_flatMap_all (place_of_mem_entriesOf _)]
  exact List.flatMap_congr fun s _ => entriesOf_append draft other s

end CatalogDraft

/-! ## Catalogs and their registrations -/

/-- The resource types that a registration makes known, given with their providers. -/
def Registration.resourceTypes : Registration → List String
  | resourceRule resource _ => [ResourceName.normalize resource]
  | filter resources _ => resources.map ResourceName.normalize
  | action resources _ => resources.map ResourceName.normalize
  | _ => []

/-- Every part of a catalog comes from a log, and it knows no other resource types. -/
structure Catalog.Consists (catalog : Catalog) (log : List Registration) : Prop
    extends catalog.Records log where
  known : ∀ name, (catalog.resources.get? name).isSome ↔
    name ∈ log.flatMap Registration.resourceTypes

theorem NameMap.isSome_get?_mergeWith {α : Type} (f : α → α → α) (m other : NameMap α)
    (name : String) : ((m.mergeWith f other).get? name).isSome ↔
      (m.get? name).isSome ∨ (other.get? name).isSome := by
  rw [get?_mergeWith]
  cases other.get? name <;> simp

theorem Catalog.isSome_get?_resourcesAs (names : List String) (resource : ResourceType)
    (name : String) : ((resourcesAs names resource).get? name).isSome ↔
      name ∈ names.map ResourceName.normalize := by
  have hfold : ∀ m : NameMap ResourceType,
      ((names.foldl (fun m name => m.insertWith ResourceType.extend
        (ResourceName.normalize name) resource) m).get? name).isSome ↔
        (m.get? name).isSome ∨ name ∈ names.map ResourceName.normalize := by
    induction names with
    | nil => exact fun m => by simp
    | cons head names ih =>
      intro m
      rw [List.foldl_cons, ih, get?_insertWith_extend, List.map_cons, List.mem_cons]
      by_cases hname : name = ResourceName.normalize head <;> simp [hname]
  rw [resourcesAs, hfold]
  simp

namespace Catalog

variable {catalog other : Catalog} {log log' : List Registration}

theorem consists_empty : (∅ : Catalog).Consists [] where
  toRecords := records_empty
  known _ := by simp [show (∅ : Catalog).resources = ∅ from rfl]

theorem Consists.extend (h : catalog.Consists log) (h' : other.Consists log') :
    (catalog.extend other).Consists (log ++ log') where
  toRecords := h.toRecords.extend h'.toRecords
  known name := by
    rw [List.flatMap_append, List.mem_append, ← h.known, ← h'.known]
    exact NameMap.isSome_get?_mergeWith _ _ _ _

theorem consists_alone (registration : Registration) :
    registration.alone.Consists [registration] where
  toRecords := registration.records_alone
  known name := by
    rw [List.flatMap_singleton]
    cases registration with
    | policyRule | conditionRule | mode => simp [Registration.alone, Registration.resourceTypes]
    | resourceRule resource rule => exact isSome_get?_resourcesAs _ _ _
    | filter resources element =>
      by_cases hnil : resources = []
      · simp [Registration.alone, ofFilter, hnil, Registration.resourceTypes]
      · rw [Registration.alone, ofFilter, if_neg (by simpa using hnil)]
        exact isSome_get?_resourcesAs _ _ _
    | action resources element =>
      by_cases hnil : resources = []
      · simp [Registration.alone, ofAction, hnil, Registration.resourceTypes]
      · rw [Registration.alone, ofAction, if_neg (by simpa using hnil)]
        exact isSome_get?_resourcesAs _ _ _

theorem Consists.foldl (h : catalog.Consists log) (registrations : List Registration) :
    (registrations.foldl Registration.applyTo catalog).Consists (log ++ registrations) := by
  induction registrations generalizing catalog log with
  | nil => simpa using h
  | cons registration registrations ih =>
    rw [List.append_cons, List.foldl_cons, registration.applyTo_eq_extend]
    exact ih (h.extend (consists_alone registration))

/-- Resource types are determined by which are known and what is found in them. -/
theorem ext_resources {resources resources' : NameMap ResourceType}
    (hknown : ∀ name, (resources.get? name).isSome ↔ (resources'.get? name).isSome)
    (hrules : ∀ name, resources.rulesOf name = resources'.rulesOf name)
    (hfilters : ∀ resource name, resources.element? ResourceType.filters resource name =
      resources'.element? ResourceType.filters resource name)
    (hactions : ∀ resource name, resources.element? ResourceType.actions resource name =
      resources'.element? ResourceType.actions resource name) : resources = resources' := by
  refine NameMap.ext_get? fun name => ?_
  specialize hknown name
  specialize hrules name
  specialize hfilters name
  specialize hactions name
  unfold NameMap.rulesOf at hrules
  unfold NameMap.element? at hfilters hactions
  cases hr : resources.get? name with
  | none =>
    cases hr' : resources'.get? name with
    | none => rfl
    | some r' => simp [hr, hr'] at hknown
  | some r =>
    cases hr' : resources'.get? name with
    | none => simp [hr, hr'] at hknown
    | some r' =>
      simp only [hr, hr', Option.map_some, Option.getD_some, Option.bind_some]
        at hrules hfilters hactions
      obtain ⟨rules, filters, actions⟩ := r
      obtain rfl := hrules
      obtain rfl := NameMap.ext_get? hfilters
      obtain rfl := NameMap.ext_get? hactions
      rfl

/-- What is looked up in one section only, in logs that agree there. -/
theorem filterMap_eq_of_pick_eq {β : Type} {f : Registration → Option β} {s : Section}
    (h : Section.pick Registration.place s log = Section.pick Registration.place s log')
    (hf : ∀ registration, f registration = none ∨ registration.place = s) :
    log.filterMap f = log'.filterMap f := by
  have hpick : ∀ log : List Registration,
      (Section.pick Registration.place s log).filterMap f = log.filterMap f := by
    intro log
    rw [Section.pick, List.filterMap_filter]
    refine List.filterMap_congr fun registration _ => ?_
    rcases hf registration with hnone | hplace
    · simp [hnone]
    · simp [hplace]
  rw [← hpick log, ← hpick log', h]

/-- Two catalogs are the same if their logs agree in every section. -/
theorem Consists.unique (h : catalog.Consists log) (h' : other.Consists log')
    (hpick : ∀ s, Section.pick Registration.place s log = Section.pick Registration.place s log') :
    catalog = other := by
  have hmem : ∀ registration, registration ∈ log ↔ registration ∈ log' := by
    intro registration
    have hiff : registration ∈ Section.pick Registration.place registration.place log ↔
        registration ∈ Section.pick Registration.place registration.place log' := by
      rw [hpick]
    simpa [Section.pick] using hiff
  have hpolicy := filterMap_eq_of_pick_eq (f := Registration.policyRule?)
    (hpick .attributes) fun registration => by
      cases registration <;> simp [Registration.policyRule?, Registration.place]
  have hcondition := filterMap_eq_of_pick_eq (f := Registration.conditionRule?)
    (hpick .condition) fun registration => by
      cases registration <;> simp [Registration.conditionRule?, Registration.place]
  have hmode := filterMap_eq_of_pick_eq (f := Registration.mode?) (hpick .mode)
    fun registration => by cases registration <;> simp [Registration.mode?, Registration.place]
  have hresource : ∀ resource, log.filterMap (Registration.resourceRule? resource) =
      log'.filterMap (Registration.resourceRule? resource) := fun resource =>
    filterMap_eq_of_pick_eq (hpick .resource) fun registration => by
      cases registration <;> simp [Registration.resourceRule?, Registration.place]
  have hfilter := filterMap_eq_of_pick_eq (f := Registration.filter?) (hpick .filters)
    fun registration => by cases registration <;> simp [Registration.filter?, Registration.place]
  have haction := filterMap_eq_of_pick_eq (f := Registration.action?) (hpick .actions)
    fun registration => by cases registration <;> simp [Registration.action?, Registration.place]
  have hresources : catalog.resources = other.resources := by
    refine ext_resources (fun name => ?_) (fun name => ?_) (fun resource name => ?_)
      fun resource name => ?_
    · rw [h.known, h'.known]
      simp only [List.mem_flatMap, hmem]
    · rw [h.resourceRules, h'.resourceRules, hresource]
    · rw [h.filters.resource, h'.filters.resource, hfilter]
    · rw [h.actions.resource, h'.actions.resource, haction]
  have hmodes : catalog.modes = other.modes :=
    NameMap.ext_get? fun name => by rw [h.modes, h'.modes, hmode]
  have hfilters : catalog.commonFilters = other.commonFilters :=
    NameMap.ext_get? fun name => by rw [h.filters.common, h'.filters.common, hfilter]
  have hactions : catalog.commonActions = other.commonActions :=
    NameMap.ext_get? fun name => by rw [h.actions.common, h'.actions.common, haction]
  have hpolicyRules := h.policyRules.trans (hpolicy.trans h'.policyRules.symm)
  have hconditionRules := h.conditionRules.trans (hcondition.trans h'.conditionRules.symm)
  cases catalog
  cases other
  simp only [Catalog.mk.injEq]
  exact ⟨hpolicyRules, hconditionRules, hmodes, hresources, hfilters, hactions⟩

end Catalog

end PolicyLint
