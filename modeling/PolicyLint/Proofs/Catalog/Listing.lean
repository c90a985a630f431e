import PolicyLint.Proofs.Catalog.Log

/-!
# The listing of a catalog

`Catalog.Finds catalog listed` says that some look-up returns a rule, and how the rule is then
to be listed : under the section of the look-up and the current name of the element that it
was found in. The rules declared by a catalog are exactly those (`mem_declaredRules_iff`), and
they come in the order of the sections (`pairwise_declaredRules`). Listing them keeps one rule
of each number.

Each registration of a log lists its own rules (`Registration.listed`), and a catalog that
records the log finds no others (`Records.exists_listed`).
-/

namespace PolicyLint

/-- The number of a listed rule. -/
def ListedRule.id (listed : ListedRule) : Nat :=
  listed.rule.id

/-! ## Each number once -/

namespace ListedRule

theorem distinct_sublist (rules : List ListedRule) : (distinct rules).Sublist rules := by
  induction rules with
  | nil => exact .slnil
  | cons listed rest ih => exact (List.filter_sublist.trans ih).cons_cons listed

theorem nodup_map_id_distinct (rules : List ListedRule) :
    ((distinct rules).map ListedRule.id).Nodup := by
  induction rules with
  | nil => exact .nil
  | cons listed rest ih =>
    rw [distinct, List.map_cons, List.nodup_cons]
    refine ⟨fun hmem => ?_, ih.sublist (List.filter_sublist.map _)⟩
    obtain ⟨other, hother, hid⟩ := List.mem_map.1 hmem
    have hne := (List.mem_filter.1 hother).2
    rw [bne_iff_ne] at hne
    exact hne hid

/-- If rules with the same number are the same, none is lost. -/
theorem mem_distinct_iff {rules : List ListedRule}
    (h : ∀ a ∈ rules, ∀ b ∈ rules, a.id = b.id → a = b) {listed : ListedRule} :
    listed ∈ distinct rules ↔ listed ∈ rules := by
  refine ⟨fun hmem => (distinct_sublist rules).mem hmem, fun hmem => ?_⟩
  induction rules with
  | nil => exact hmem
  | cons head rest ih =>
    rw [distinct, List.mem_cons]
    by_cases hid : listed.id = head.id
    · exact .inl (h listed hmem head List.mem_cons_self hid)
    · have hrest : listed ∈ rest := (List.mem_cons.1 hmem).resolve_left fun heq => hid (heq ▸ rfl)
      refine .inr (List.mem_filter.2 ⟨ih (fun a ha b hb => ?_) hrest, bne_iff_ne.2 hid⟩)
      exact h a (List.mem_cons_of_mem _ ha) b (List.mem_cons_of_mem _ hb)

theorem mem_ofRules {place : Section} {element : String} {rules : List Rule}
    {listed : ListedRule} :
    listed ∈ ofRules place element rules ↔ ∃ rule ∈ rules, ⟨place, element, rule⟩ = listed :=
  List.mem_map

theorem mem_ofElements {place : Section} {elements : List ElementType} {listed : ListedRule} :
    listed ∈ ofElements place elements ↔
      ∃ element ∈ elements, ∃ rule ∈ element.rules, ⟨place, element.name, rule⟩ = listed := by
  unfold ofElements
  rw [List.mem_flatMap]
  exact exists_congr fun element => and_congr_right fun _ => mem_ofRules

end ListedRule

/-! ## The order of sections -/

/-- The position of a section in a report. -/
def Section.position (s : Section) : Nat :=
  Section.all.idxOf s

namespace ListedRule

/-- Rules in the order of their sections, none of which comes after `last`. -/
structure SortedUpTo (last : Section) (rules : List ListedRule) : Prop where
  sorted : rules.Pairwise fun a b => a.place.position ≤ b.place.position
  le_last : ∀ listed ∈ rules, listed.place.position ≤ last.position

theorem SortedUpTo.append {last place : Section} {rules rules' : List ListedRule}
    (h : SortedUpTo last rules) (hplace : ∀ listed ∈ rules', listed.place = place)
    (hle : last.position ≤ place.position) : SortedUpTo place (rules ++ rules') where
  sorted := by
    refine List.pairwise_append.2 ⟨h.sorted, ?_, fun a ha b hb => ?_⟩
    · exact List.pairwise_of_forall_mem_list fun a ha b hb => by rw [hplace a ha, hplace b hb]
    · rw [hplace b hb]
      exact (h.le_last a ha).trans hle
  le_last listed hmem := by
    rcases List.mem_append.1 hmem with hmem | hmem
    · exact (h.le_last listed hmem).trans hle
    · rw [hplace listed hmem]

theorem place_of_mem_ofRules {place : Section} {element : String} {rules : List Rule} :
    ∀ listed ∈ ofRules place element rules, listed.place = place := by
  intro listed hmem
  obtain ⟨rule, -, rfl⟩ := mem_ofRules.1 hmem
  rfl

theorem place_of_mem_ofElements {place : Section} {elements : List ElementType} :
    ∀ listed ∈ ofElements place elements, listed.place = place := by
  intro listed hmem
  obtain ⟨element, -, rule, -, rfl⟩ := mem_ofElements.1 hmem
  rfl

end ListedRule

open ListedRule (SortedUpTo place_of_mem_ofRules place_of_mem_ofElements)

/-- The declared rules come section after section. -/
theorem Catalog.pairwise_declaredRules (catalog : Catalog) :
    catalog.declaredRules.Pairwise fun a b => a.place.position ≤ b.place.position := by
  have hresources : ∀ listed ∈ catalog.resources.entries.flatMap
      (fun entry => ListedRule.ofRules .resource entry.1 entry.2.rules),
      listed.place = .resource := by
    intro listed hmem
    obtain ⟨entry, -, hmem⟩ := List.mem_flatMap.1 hmem
    exact place_of_mem_ofRules listed hmem
  have hpolicy : SortedUpTo .attributes (ListedRule.ofRules .attributes "" catalog.policyRules) :=
    ⟨List.pairwise_of_forall_mem_list fun a ha b hb => by
      rw [place_of_mem_ofRules a ha, place_of_mem_ofRules b hb],
    fun listed hmem => by rw [place_of_mem_ofRules listed hmem]⟩
  have hall : SortedUpTo .actions catalog.declaredRules :=
    hpolicy
      |>.append place_of_mem_ofRules (by decide)
      |>.append place_of_mem_ofElements (by decide)
      |>.append hresources (by decide)
      |>.append place_of_mem_ofElements (by decide)
      |>.append place_of_mem_ofElements (by decide)
      |>.append place_of_mem_ofElements (by decide)
      |>.append place_of_mem_ofElements (by decide)
  exact hall.sorted

/-! ## Listing and look-up -/

/-- What some look-up returns, as it is to be listed. -/
inductive Catalog.Finds (catalog : Catalog) : ListedRule → Prop
  | policyRule {rule : Rule} (hrule : rule ∈ catalog.policyRules) :
    Finds catalog ⟨.attributes, "", rule⟩
  | conditionRule {rule : Rule} (hrule : rule ∈ catalog.conditionRules) :
    Finds catalog ⟨.condition, "", rule⟩
  | resourceRule {resource : String} {rule : Rule}
    (hrule : rule ∈ catalog.resourceRules resource) : Finds catalog ⟨.resource, resource, rule⟩
  | mode {name : String} {element : ElementType} {rule : Rule}
    (helement : catalog.mode? name = some element) (hrule : rule ∈ element.rules) :
    Finds catalog ⟨.mode, element.name, rule⟩
  | filter {resource name : String} {element : ElementType} {rule : Rule}
    (helement : catalog.filter? resource name = some element) (hrule : rule ∈ element.rules) :
    Finds catalog ⟨.filters, element.name, rule⟩
  | action {resource name : String} {element : ElementType} {rule : Rule}
    (helement : catalog.action? resource name = some element) (hrule : rule ∈ element.rules) :
    Finds catalog ⟨.actions, element.name, rule⟩

/-- The elements of all resource types, and those common to them, are the ones that look-up
finds : the common ones show in a resource type that is not known. -/
theorem NameMap.exists_element?_or_iff (resources : NameMap ResourceType)
    (part : ResourceType → NameMap ElementType) (common : NameMap ElementType)
    (element : ElementType) :
    (∃ resource name,
      (resources.element? part resource name).or (common.get? name) = some element) ↔
      element ∈ resources.values.flatMap (fun r => (part r).values) ∨ element ∈ common.values := by
  simp only [List.mem_flatMap, mem_values_iff]
  constructor
  · rintro ⟨resource, name, h⟩
    rcases Option.or_eq_some_iff.1 h with h | ⟨-, h⟩
    · obtain ⟨r, hr, h⟩ := Option.bind_eq_some_iff.1 h
      exact .inl ⟨r, ⟨resource, hr⟩, name, h⟩
    · exact .inr ⟨name, h⟩
  · rintro (⟨r, ⟨resource, hr⟩, name, h⟩ | ⟨name, h⟩)
    · have helement : resources.element? part resource name = some element :=
        Option.bind_eq_some_iff.2 ⟨r, hr, h⟩
      exact ⟨resource, name, by rw [helement, Option.some_or]⟩
    · obtain ⟨resource, hresource⟩ := resources.exists_get?_eq_none
      refine ⟨resource, name, ?_⟩
      rw [element?, hresource, h]
      rfl

/-- A catalog declares what its look-ups find. -/
theorem Catalog.mem_declaredRules_iff {catalog : Catalog} {listed : ListedRule} :
    listed ∈ catalog.declaredRules ↔ catalog.Finds listed := by
  have hfilters := catalog.resources.exists_element?_or_iff ResourceType.filters
    catalog.commonFilters
  have hactions := catalog.resources.exists_element?_or_iff ResourceType.actions
    catalog.commonActions
  simp only [← filter?_eq] at hfilters
  simp only [← action?_eq] at hactions
  simp only [declaredRules, List.mem_append, ListedRule.mem_ofRules, ListedRule.mem_ofElements,
    or_assoc]
  constructor
  · rintro (⟨rule, hrule, rfl⟩ | ⟨rule, hrule, rfl⟩ | ⟨element, helement, rule, hrule, rfl⟩ | h |
      ⟨element, helement, rule, hrule, rfl⟩ | ⟨element, helement, rule, hrule, rfl⟩ |
      ⟨element, helement, rule, hrule, rfl⟩ | ⟨element, helement, rule, hrule, rfl⟩)
    · exact .policyRule hrule
    · exact .conditionRule hrule
    · obtain ⟨name, hname⟩ := NameMap.mem_values_iff.1 helement
      exact .mode hname hrule
    · obtain ⟨⟨resource, r⟩, hentry, hmem⟩ := List.mem_flatMap.1 h
      obtain ⟨rule, hrule, rfl⟩ := ListedRule.mem_ofRules.1 hmem
      refine .resourceRule ?_
      rw [resourceRules, NameMap.mem_entries_iff.1 hentry]
      exact hrule
    · obtain ⟨resource, name, hname⟩ := (hfilters element).2 (.inl helement)
      exact .filter hname hrule
    · obtain ⟨resource, name, hname⟩ := (hfilters element).2 (.inr helement)
      exact .filter hname hrule
    · obtain ⟨resource, name, hname⟩ := (hactions element).2 (.inl helement)
      exact .action hname hrule
    · obtain ⟨resource, name, hname⟩ := (hactions element).2 (.inr helement)
      exact .action hname hrule
  · intro h
    cases h with
    | policyRule hrule => exact .inl ⟨_, hrule, rfl⟩
    | conditionRule hrule => exact .inr (.inl ⟨_, hrule, rfl⟩)
    | mode helement hrule =>
      have hmem := NameMap.mem_values_iff.2 ⟨_, helement⟩
      exact .inr (.inr (.inl ⟨_, hmem, _, hrule, rfl⟩))
    | @resourceRule resource rule hrule =>
      rw [resourceRules] at hrule
      cases hr : catalog.resources.get? resource with
      | none =>
        rw [hr] at hrule
        cases hrule
      | some r =>
        rw [hr] at hrule
        refine .inr (.inr (.inr (.inl (List.mem_flatMap.2 ⟨(resource, r), ?_, ?_⟩))))
        · exact NameMap.mem_entries_iff.2 hr
        · exact ListedRule.mem_ofRules.2 ⟨rule, hrule, rfl⟩
    | filter helement hrule =>
      rcases (hfilters _).1 ⟨_, _, helement⟩ with hmem | hmem
      · exact .inr (.inr (.inr (.inr (.inl ⟨_, hmem, _, hrule, rfl⟩))))
      · exact .inr (.inr (.inr (.inr (.inr (.inl ⟨_, hmem, _, hrule, rfl⟩)))))
    | action helement hrule =>
      rcases (hactions _).1 ⟨_, _, helement⟩ with hmem | hmem
      · exact .inr (.inr (.inr (.inr (.inr (.inr (.inl ⟨_, hmem, _, hrule, rfl⟩))))))
      · exact .inr (.inr (.inr (.inr (.inr (.inr (.inr ⟨_, hmem, _, hrule, rfl⟩))))))

/-! ## Listings of registrations -/

/-- The rules of a registration, as they are to be listed. -/
def Registration.listed : Registration → List ListedRule
  | policyRule rule => ListedRule.ofRules .attributes "" [rule]
  | conditionRule rule => ListedRule.ofRules .condition "" [rule]
  | resourceRule resource rule =>
    ListedRule.ofRules .resource (ResourceName.normalize resource) [rule]
  | mode element => ListedRule.ofRules .mode element.name element.rules
  | filter _ element => ListedRule.ofRules .filters element.name element.rules
  | action _ element => ListedRule.ofRules .actions element.name element.rules

namespace Catalog.Follows

variable {catalog : Catalog} {log : List Registration}

theorem mem_names_of_mode? (h : catalog.Follows log) {name : String} {element : ElementType}
    (hname : catalog.mode? name = some element) : name ∈ element.names :=
  (lastOf_eq_some ((h.mode? name).symm.trans hname)).2

theorem mem_names_of_filter? (h : catalog.Follows log) {resource name : String}
    {element : ElementType} (hname : catalog.filter? resource name = some element) :
    name ∈ element.names :=
  (exists_of_lastServing ((h.filter? resource name).symm.trans hname)).1

theorem mem_names_of_action? (h : catalog.Follows log) {resource name : String}
    {element : ElementType} (hname : catalog.action? resource name = some element) :
    name ∈ element.names :=
  (exists_of_lastServing ((h.action? resource name).symm.trans hname)).1

/-- What is found in a catalog was registered. -/
theorem exists_listed (h : catalog.Follows log) {listed : ListedRule}
    (hfinds : catalog.Finds listed) : ∃ registration ∈ log, listed ∈ registration.listed := by
  cases hfinds with
  | policyRule hrule =>
    rw [h.policyRules] at hrule
    obtain ⟨registration, hmem, hadded⟩ := List.mem_filterMap.1 hrule
    refine ⟨registration, hmem, ?_⟩
    cases registration <;> cases hadded
    exact List.mem_singleton_self _
  | conditionRule hrule =>
    rw [h.conditionRules] at hrule
    obtain ⟨registration, hmem, hadded⟩ := List.mem_filterMap.1 hrule
    refine ⟨registration, hmem, ?_⟩
    cases registration <;> cases hadded
    exact List.mem_singleton_self _
  | resourceRule hrule =>
    rw [h.resourceRules] at hrule
    obtain ⟨registration, hmem, hadded⟩ := List.mem_filterMap.1 hrule
    refine ⟨registration, hmem, ?_⟩
    cases registration with
    | resourceRule resource rule =>
      rw [Registration.resourceRule?, Option.ite_none_right_eq_some] at hadded
      obtain ⟨rfl, hadded⟩ := hadded
      cases hadded
      exact List.mem_singleton_self _
    | _ => cases hadded
  | mode helement hrule =>
    rw [h.mode?] at helement
    obtain ⟨registration, hmem, hmode⟩ := List.mem_filterMap.1 (lastOf_eq_some helement).1
    refine ⟨registration, hmem, ?_⟩
    cases registration <;> cases hmode
    exact ListedRule.mem_ofRules.2 ⟨_, hrule, rfl⟩
  | filter helement hrule =>
    rw [h.filter?] at helement
    obtain ⟨-, registration, hmem, resources, hfilter⟩ := exists_of_lastServing helement
    refine ⟨registration, hmem, ?_⟩
    cases registration <;> cases hfilter
    exact ListedRule.mem_ofRules.2 ⟨_, hrule, rfl⟩
  | action helement hrule =>
    rw [h.action?] at helement
    obtain ⟨-, registration, hmem, resources, haction⟩ := exists_of_lastServing helement
    refine ⟨registration, hmem, ?_⟩
    cases registration <;> cases haction
    exact ListedRule.mem_ofRules.2 ⟨_, hrule, rfl⟩

end Catalog.Follows

end PolicyLint
