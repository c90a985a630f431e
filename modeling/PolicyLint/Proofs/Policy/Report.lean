import PolicyLint.Proofs.Policy.Elements

/-!
# What the report on a policy says

`IsReport policy catalog report` says section by section what a report on a policy must hold :
the declared rules that apply, in the order of the policy, and nothing else. The rules on the
policy, its condition block and its resource type are checked against all of its data, those
of a mode, a filter or an action against the data of that element. What is found in a filter
or an action carries its type as a label.

Main statement : the report that a catalog gives on a policy is the one report that does so
(`eq_report_withRules_iff`).
-/

namespace PolicyLint

/-- The rules of a list that apply to data, in the order of the list, as findings. -/
def Finding.applying (label : Option String) (rules : List Rule) (data : Mapping) :
    List Finding :=
  (rules.filter fun rule => rule.appliesTo data).map fun rule => ⟨rule, label⟩

/-- The rules of an element type. An unknown type declares none. -/
def ElementType.declared : Option ElementType → List Rule
  | some type => type.rules
  | none => []

/-- What is found in a filter or an action of the type `type`. -/
def PolicyElement.found (element : PolicyElement) (type : Option ElementType) : List Finding :=
  Finding.applying (some (element.typeName ++ ":")) (ElementType.declared type) element.data

namespace Policy

variable (policy : Policy)

/-- The data of the execution mode. Without a mapping for it there are none. -/
def modeData : Mapping :=
  match policy.data.get? "mode" with
  | some (.mapping data) => data
  | _ => []

/-- The type of the execution mode. -/
def modeType : String :=
  match policy.modeData.get? "type" with
  | some (.string type) => type
  | _ => "pull"

/-- The entries of the list under a key. Without a list for it there are none. -/
def entriesUnder (key : String) : List Value :=
  match policy.data.get? key with
  | some (.list entries) => entries
  | _ => []

end Policy

/-- What the report on a policy holds. The filters are those in the list under `filters`, where
they stand in blocks, and are found from left to right and depth first, and the actions are those
in the list under `actions`. -/
structure IsReport (policy : Policy) (catalog : Catalog) (report : Report) : Prop where
  policyName : report.policyName = policy.name
  policyFields : report.policyFields = Finding.applying none catalog.policyRules policy.data
  conditions : report.conditions = Finding.applying none catalog.conditionRules policy.data
  resource : report.resource =
    Finding.applying none (catalog.resourceRules policy.resourceType) policy.data
  mode : report.mode =
    Finding.applying none (ElementType.declared (catalog.mode? policy.modeType)) policy.modeData
  filters : ∃ filters, ListsAll (PolicyElement.FilterAt (policy.entriesUnder "filters")) filters ∧
    report.filters = filters.flatMap fun (_, filter) =>
      filter.found (catalog.filter? policy.resourceType filter.typeName)
  actions : ∃ actions, ListsAll (PolicyElement.ActionAt (policy.entriesUnder "actions")) actions ∧
    report.actions = actions.flatMap fun (_, action) =>
      action.found (catalog.action? policy.resourceType action.typeName)

/-- There is at most one report on a policy. -/
theorem IsReport.unique {policy : Policy} {catalog : Catalog} {report report' : Report}
    (h : IsReport policy catalog report) (h' : IsReport policy catalog report') :
    report = report' := by
  obtain ⟨filters, hfilters, hfound⟩ := h.filters
  obtain ⟨filters', hfilters', hfound'⟩ := h'.filters
  obtain ⟨actions, hactions, hdone⟩ := h.actions
  obtain ⟨actions', hactions', hdone'⟩ := h'.actions
  obtain rfl := hfilters.unique hfilters'
  obtain rfl := hactions.unique hactions'
  cases report
  cases report'
  simp only [Report.mk.injEq]
  exact ⟨h.policyName.trans h'.policyName.symm, h.policyFields.trans h'.policyFields.symm,
    h.conditions.trans h'.conditions.symm, h.mode.trans h'.mode.symm,
    h.resource.trans h'.resource.symm, hfound.trans hfound'.symm, hdone.trans hdone'.symm⟩

namespace RuledElement

theorem findings_labelled (element : PolicyElement) (type : Option ElementType) :
    (labelled element type).subject.findings = element.found type := by
  cases type <;> rfl

theorem findings_ofType (element : PolicyElement) (type : Option ElementType) :
    (ofType none element type).subject.findings =
      Finding.applying none (ElementType.declared type) element.data := by
  cases type <;> rfl

end RuledElement

namespace Policy

variable (policy : Policy)

theorem modeElement_eq : policy.modeElement = ⟨policy.modeType, policy.modeData⟩ := by
  unfold modeElement mode PolicyElement.ofMode modeType modeData Mapping.string?
  cases policy.data.get? "mode" with
  | none => rfl
  | some value =>
    cases value with
    | mapping data =>
      simp only [Option.bind_some, Value.mapping?, Option.getD_some]
      cases Mapping.get? data "type" with
      | none => rfl
      | some type => cases type <;> rfl
    | _ => rfl

theorem list_eq_entriesUnder (key : String) : policy.list key = policy.entriesUnder key := by
  unfold list entriesUnder
  cases policy.data.get? key with
  | none => rfl
  | some value => cases value <;> rfl

theorem filters_eq_entriesUnder : policy.filters = policy.entriesUnder "filters" :=
  policy.list_eq_entriesUnder "filters"

theorem actions_eq_entriesUnder : policy.actions = policy.entriesUnder "actions" :=
  policy.list_eq_entriesUnder "actions"

theorem isReport_report_withRules (catalog : Catalog) :
    IsReport policy catalog (policy.withRules catalog).report where
  policyName := rfl
  policyFields := rfl
  conditions := rfl
  resource := rfl
  mode := by
    show (RuledElement.ofType none policy.modeElement _).subject.findings = _
    rw [RuledElement.findings_ofType, modeElement_eq]
  filters := by
    obtain ⟨filters, hfilters, hmap⟩ :=
      PolicyElement.exists_listsAll_filterLeavesOf policy.filters
    refine ⟨filters, policy.filters_eq_entriesUnder ▸ hfilters, ?_⟩
    show (((PolicyElement.filterLeavesOf policy.filters).map _).map _).flatMap _ = _
    rw [← hmap, List.map_map, List.map_map, List.flatMap_map]
    exact List.flatMap_congr fun _ _ => RuledElement.findings_labelled _ _
  actions := by
    obtain ⟨actions, hactions, hmap⟩ :=
      PolicyElement.exists_listsAll_filterMap_action? policy.actions
    refine ⟨actions, policy.actions_eq_entriesUnder ▸ hactions, ?_⟩
    show (((policy.actions.filterMap PolicyElement.action?).map _).map _).flatMap _ = _
    rw [← hmap, List.map_map, List.map_map, List.flatMap_map]
    exact List.flatMap_congr fun _ _ => RuledElement.findings_labelled _ _

/-- The report that a catalog gives on a policy is the one that holds what it must. -/
theorem eq_report_withRules_iff (catalog : Catalog) (report : Report) :
    report = (policy.withRules catalog).report ↔ IsReport policy catalog report := by
  have hreport := policy.isReport_report_withRules catalog
  constructor
  · rintro rfl
    exact hreport
  · exact fun h => h.unique hreport

end Policy

end PolicyLint
