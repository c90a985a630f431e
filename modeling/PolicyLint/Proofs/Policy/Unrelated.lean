import PolicyLint.Proofs.Catalog.Lookup
import PolicyLint.Proofs.Policy.Report

/-!
# Catalogs that do not concern a policy

A catalog that is put behind another may know elements of any names, for any resource types. If
it knows neither the mode of a policy nor any of its filters and actions (`Policy.UnknownTo`),
then what it adds to the report on the policy comes from its lists of rules alone, and comes
last in the three sections that these lists contribute to.

Main statement : the report under the extended catalog in terms of the reports under both
(`Policy.report_withRules_extend`). If the lists of rules are empty too, the report is the same.
-/

namespace PolicyLint

theorem Finding.applying_append (label : Option String) (rules more : List Rule)
    (data : Mapping) : applying label (rules ++ more) data =
      applying label rules data ++ applying label more data := by
  rw [applying, List.filter_append, List.map_append]
  rfl

namespace Policy

variable {policy : Policy} {catalog other : Catalog}

/-- Whether a catalog knows none of the elements of a policy : not its mode, none of its filters
and none of its actions. -/
structure UnknownTo (policy : Policy) (catalog : Catalog) : Prop where
  mode : catalog.mode? policy.modeType = none
  filters : ∀ path filter, PolicyElement.FilterAt policy.filters path filter →
    catalog.filter? policy.resourceType filter.typeName = none
  actions : ∀ i action, PolicyElement.ActionAt policy.actions i action →
    catalog.action? policy.resourceType action.typeName = none

theorem unknownTo_iff : policy.UnknownTo catalog ↔
    catalog.mode? policy.modeType = none ∧
      (∀ filter ∈ policy.filterElements,
        catalog.filter? policy.resourceType filter.typeName = none) ∧
      ∀ action ∈ policy.actionElements,
        catalog.action? policy.resourceType action.typeName = none := by
  simp only [filterElements, actionElements, PolicyElement.mem_filterLeavesOf_iff,
    PolicyElement.mem_filterMap_action?_iff, forall_exists_index]
  constructor
  · rintro ⟨hmode, hfilters, hactions⟩
    exact ⟨hmode, fun filter path => hfilters path filter, fun action i => hactions i action⟩
  · rintro ⟨hmode, hfilters, hactions⟩
    exact ⟨hmode, fun path filter => hfilters filter path, fun i action => hactions action i⟩

instance (policy : Policy) (catalog : Catalog) : Decidable (policy.UnknownTo catalog) :=
  decidable_of_iff _ unknownTo_iff.symm

/-- What the rules of two catalogs find in a policy, where the other knows none of its elements. -/
theorem UnknownTo.isReport_extend (h : policy.UnknownTo other) {report report' : Report}
    (hreport : IsReport policy catalog report) (hreport' : IsReport policy other report') :
    IsReport policy (catalog.extend other) { report with
      policyFields := report.policyFields ++ report'.policyFields
      conditions := report.conditions ++ report'.conditions
      resource := report.resource ++ report'.resource } where
  policyName := hreport.policyName
  policyFields := by
    show report.policyFields ++ report'.policyFields = _
    rw [hreport.policyFields, hreport'.policyFields, ← Finding.applying_append]
    rfl
  conditions := by
    show report.conditions ++ report'.conditions = _
    rw [hreport.conditions, hreport'.conditions, ← Finding.applying_append]
    rfl
  resource := by
    show report.resource ++ report'.resource = _
    rw [hreport.resource, hreport'.resource, ← Finding.applying_append,
      ← Catalog.resourceRules_extend]
  mode := by
    rw [Catalog.mode?_extend_of_eq_none h.mode]
    exact hreport.mode
  filters := by
    obtain ⟨filters, hfilters, hfound⟩ := hreport.filters
    refine ⟨filters, hfilters, hfound.trans (List.flatMap_congr ?_)⟩
    rw [← policy.filters_eq_entriesUnder] at hfilters
    rintro ⟨path, filter⟩ hmem
    have hunknown := h.filters path filter ((hfilters.mem_iff path filter).1 hmem)
    simp only [Catalog.filter?_extend_of_eq_none hunknown]
  actions := by
    obtain ⟨actions, hactions, hfound⟩ := hreport.actions
    refine ⟨actions, hactions, hfound.trans (List.flatMap_congr ?_)⟩
    rw [← policy.actions_eq_entriesUnder] at hactions
    rintro ⟨i, action⟩ hmem
    have hunknown := h.actions i action ((hactions.mem_iff i action).1 hmem)
    simp only [Catalog.action?_extend_of_eq_none hunknown]

/-- A catalog that knows none of the elements of a policy adds what its lists of rules find to the
end of three sections, and changes nothing else. Without such rules it changes nothing. -/
theorem report_withRules_extend (h : policy.UnknownTo other) (catalog : Catalog) :
    let report := (policy.withRules catalog).report
    let report' := (policy.withRules other).report
    (policy.withRules (catalog.extend other)).report = { report with
      policyFields := report.policyFields ++ report'.policyFields
      conditions := report.conditions ++ report'.conditions
      resource := report.resource ++ report'.resource } ∧
    (other.policyRules = [] → other.conditionRules = [] →
      other.resourceRules policy.resourceType = [] →
      (policy.withRules (catalog.extend other)).report = report) := by
  intro report report'
  have hother : IsReport policy other report' := policy.isReport_report_withRules other
  have hextend := (policy.isReport_report_withRules (catalog.extend other)).unique
    (h.isReport_extend (policy.isReport_report_withRules catalog) hother)
  refine ⟨hextend, fun hpolicy hcondition hresource => ?_⟩
  have hfields : report'.policyFields = [] := by
    rw [hother.policyFields, hpolicy]
    rfl
  have hconditions : report'.conditions = [] := by
    rw [hother.conditions, hcondition]
    rfl
  have hresource : report'.resource = [] := by
    rw [hother.resource, hresource]
    rfl
  rw [hextend]
  show { report with
    policyFields := report.policyFields ++ report'.policyFields
    conditions := report.conditions ++ report'.conditions
    resource := report.resource ++ report'.resource } = report
  rw [hfields, hconditions, hresource, List.append_nil, List.append_nil, List.append_nil]

/-- A catalog with a filter of that name for another resource type and with the mode of other
policies does not disturb a policy, and with a rule on policies it adds a finding at the end. -/
theorem report_withRules_extend_sample :
    let rule (id : Nat) : Rule := { id := id, kind := .field "region" "a condition" }
    let policy : Policy := ⟨"p", "aws.ec2",
      [("filters", .list [.mapping [("or", .list [.string "tag", .mapping []])]]),
        ("mode", .mapping [("type", .string "periodic")]), ("region", .string "us")]⟩
    let catalog := ((∅ : Catalog).addPolicyRule (rule 1)).registerFilter [] ⟨["tag"], [rule 2]⟩
    let other := ((∅ : Catalog).registerFilter ["s3"] ⟨["label", "tag"], [rule 3]⟩).registerMode
      ⟨["pull"], [rule 4]⟩
    policy.UnknownTo other ∧ (other.policyRules = [] ∧ other.conditionRules = [] ∧
      other.resourceRules policy.resourceType = []) ∧
    (policy.withRules (catalog.extend other)).report = (policy.withRules catalog).report ∧
    policy.UnknownTo (other.addPolicyRule (rule 5)) ∧
    (policy.withRules (catalog.extend (other.addPolicyRule (rule 5)))).report.policyFields =
      [⟨rule 1, none⟩, ⟨rule 5, none⟩] := by
  intro rule policy catalog other
  have hother : policy.UnknownTo other := by decide
  have hruled : policy.UnknownTo (other.addPolicyRule (rule 5)) := by decide
  refine ⟨hother, by decide, (report_withRules_extend hother catalog).2 ?_ ?_ ?_, hruled, ?_⟩
  · rfl
  · rfl
  · rfl
  · rw [(report_withRules_extend hruled catalog).1]
    decide

end Policy

end PolicyLint
