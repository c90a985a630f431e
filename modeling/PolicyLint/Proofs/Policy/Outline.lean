import PolicyLint.Proofs.Policy.Report
import PolicyLint.Proofs.Rule.Outline

/-!
# What reports read of policies

A report reads the outline of a policy : the outline of its data as a whole, and the outlines of
its mode, of its filters one after the other, and of its actions (`Policy.SameOutline`). How the
filters are put into blocks is not in it, and neither is what stands in a list of filters or
actions without being one.

`Policy.outline` keeps of a policy what has to be there for its outline, and leaves out every
other value, at any depth.

Main statement : policies with the same outline have the same report under every catalog, and so
have policies of which the same is kept (`Policy.report_withRules_congr_outline`).
-/

namespace PolicyLint

/-! ## Findings -/

theorem Finding.applying_congr {data data' : Mapping} (h : data.SameOutline data')
    (label : Option String) (rules : List Rule) :
    applying label rules data = applying label rules data' := by
  have happlies : ∀ rule : Rule, rule.appliesTo data = rule.appliesTo data' :=
    fun rule => rule.kind.appliesTo_congr h
  simp only [applying, happlies]

namespace PolicyElement

/-- Elements of which reports read the same. -/
def SameOutline (element element' : PolicyElement) : Prop :=
  element.data.SameOutline element'.data

/-- What stands somewhere, paired in the order of the places, has the same outlines. -/
def SameOutlines {π : Type} [LT π] (stands stands' : π → PolicyElement → Prop) : Prop :=
  ∃ found found', ListsAll stands found ∧ ListsAll stands' found' ∧
    List.Forall₂ (fun a b : π × PolicyElement => a.2.SameOutline b.2) found found'

/-- Filters are what their data say. -/
theorem FilterAt.eq_ofFilterData {entries : List Value} {path : List Nat}
    {filter : PolicyElement} (h : FilterAt entries path filter) :
    filter = ofFilterData filter.data := by
  induction h with
  | entry _ hfilter =>
    cases hfilter with
    | name type => rfl
    | typed hblock htype => exact (isFilter_mapping_iff hblock).1 (.typed hblock htype)
    | untyped hblock htype => exact (isFilter_mapping_iff hblock).1 (.untyped hblock htype)
  | block _ _ _ ih => exact ih

/-- Actions are what their data say, like filters that name their type. -/
theorem ActionAt.eq_ofFilterData {entries : List Value} {i : Nat} {action : PolicyElement}
    (h : ActionAt entries i action) : action = ofFilterData action.data := by
  obtain ⟨value, -, haction⟩ := h
  cases haction with
  | name type => rfl
  | typed htype => rw [ofFilterData, string?_eq_some.2 htype, Option.getD_some]

theorem found_congr {element element' : PolicyElement} (h : element.SameOutline element')
    (helement : element = ofFilterData element.data)
    (helement' : element' = ofFilterData element'.data) (types : String → Option ElementType) :
    element.found (types element.typeName) = element'.found (types element'.typeName) := by
  have htype : element.typeName = element'.typeName := by
    rw [helement, helement']
    simp only [ofFilterData, h.type]
  unfold found
  rw [htype, Finding.applying_congr h]

/-- Elements with the same outlines, one after the other, give the same findings. -/
theorem flatMap_found_congr {π : Type} {found found' : List (π × PolicyElement)}
    (h : List.Forall₂ (fun a b => a.2.SameOutline b.2) found found')
    (hfound : ∀ a ∈ found, a.2 = ofFilterData a.2.data)
    (hfound' : ∀ a ∈ found', a.2 = ofFilterData a.2.data)
    (types : String → Option ElementType) :
    (found.flatMap fun (_, element) => element.found (types element.typeName)) =
      found'.flatMap fun (_, element) => element.found (types element.typeName) := by
  induction h with
  | nil => rfl
  | cons hpair _ ih =>
    obtain ⟨hfirst, hfound⟩ := List.forall_mem_cons.1 hfound
    obtain ⟨hfirst', hfound'⟩ := List.forall_mem_cons.1 hfound'
    rw [List.flatMap_cons, List.flatMap_cons, ih hfound hfound']
    exact congrArg (· ++ _) (found_congr hpair hfirst hfirst' types)

section Places

variable {π : Type} [LT π] {stands stands' : π → PolicyElement → Prop}
variable [Std.Irrefl (α := π) (· < ·)] [Std.Asymm (α := π) (· < ·)]

/-- What is listed on one side gives the same findings as what is listed on the other. -/
theorem SameOutlines.exists_listsAll (h : SameOutlines stands stands')
    (hstands : ∀ {place element}, stands place element → element = ofFilterData element.data)
    (hstands' : ∀ {place element}, stands' place element → element = ofFilterData element.data)
    {found : List (π × PolicyElement)} (hfound : ListsAll stands found)
    (types : String → Option ElementType) :
    ∃ found', ListsAll stands' found' ∧
      (found.flatMap fun (_, element) => element.found (types element.typeName)) =
        found'.flatMap fun (_, element) => element.found (types element.typeName) := by
  obtain ⟨first, found', hfirst, hfound', hpairs⟩ := h
  obtain rfl := hfirst.unique hfound
  exact ⟨found', hfound', flatMap_found_congr hpairs
    (fun a ha => hstands ((hfirst.mem_iff a.1 a.2).1 ha))
    (fun a ha => hstands' ((hfound'.mem_iff a.1 a.2).1 ha)) types⟩

theorem sameOutlines_iff {found found' : List (π × PolicyElement)}
    (h : ListsAll stands found) (h' : ListsAll stands' found') : SameOutlines stands stands' ↔
      List.Forall₂ SameOutline (found.map Prod.snd) (found'.map Prod.snd) := by
  rw [List.forall₂_map_left_iff, List.forall₂_map_right_iff]
  constructor
  · rintro ⟨first, first', hfirst, hfirst', hpairs⟩
    rwa [hfirst.unique h, hfirst'.unique h'] at hpairs
  · exact fun hpairs => ⟨found, found', h, h', hpairs⟩

end Places

theorem sameOutlines_filterAt_iff {entries entries' : List Value} :
    SameOutlines (FilterAt entries) (FilterAt entries') ↔
      List.Forall₂ SameOutline (filterLeavesOf entries) (filterLeavesOf entries') := by
  obtain ⟨found, hfound, hmap⟩ := exists_listsAll_filterLeavesOf entries
  obtain ⟨found', hfound', hmap'⟩ := exists_listsAll_filterLeavesOf entries'
  rw [sameOutlines_iff hfound hfound', hmap, hmap']

theorem sameOutlines_actionAt_iff {entries entries' : List Value} :
    SameOutlines (ActionAt entries) (ActionAt entries') ↔
      List.Forall₂ SameOutline (entries.filterMap action?) (entries'.filterMap action?) := by
  obtain ⟨found, hfound, hmap⟩ := exists_listsAll_filterMap_action? entries
  obtain ⟨found', hfound', hmap'⟩ := exists_listsAll_filterMap_action? entries'
  rw [sameOutlines_iff hfound hfound', hmap, hmap']

theorem ofMode_congr {block block' : Option Mapping}
    (h : Option.Rel Mapping.SameOutline block block') :
    (ofMode block).typeName = (ofMode block').typeName ∧
      (ofMode block).data.SameOutline (ofMode block').data := by
  cases h with
  | some h => exact ⟨by simp only [ofMode, Option.bind_some, h.type], h⟩
  | none => exact ⟨rfl, fun _ => rfl, rfl⟩

end PolicyElement

open PolicyElement (SameOutlines FilterAt ActionAt)

namespace Policy

variable {policy policy' : Policy}

/-! ## Policies with the same outline -/

/-- Policies of which reports read the same. -/
structure SameOutline (policy policy' : Policy) : Prop where
  name : policy.name = policy'.name
  resourceType : policy.resourceType = policy'.resourceType
  data : policy.data.SameOutline policy'.data
  mode : Option.Rel Mapping.SameOutline policy.mode policy'.mode
  filters : SameOutlines (FilterAt policy.filters) (FilterAt policy'.filters)
  actions : SameOutlines (ActionAt policy.actions) (ActionAt policy'.actions)

theorem mode_congr (h : Option.Rel Mapping.SameOutline policy.mode policy'.mode) :
    policy.modeType = policy'.modeType ∧ policy.modeData.SameOutline policy'.modeData := by
  have hmode := PolicyElement.ofMode_congr h
  rwa [← modeElement, ← modeElement, modeElement_eq, modeElement_eq] at hmode

/-- What is a report on a policy is one on any policy with the same outline. -/
theorem SameOutline.isReport {catalog : Catalog} {report : Report}
    (h : policy.SameOutline policy') (hreport : IsReport policy catalog report) :
    IsReport policy' catalog report where
  policyName := hreport.policyName.trans h.name
  policyFields := hreport.policyFields.trans (Finding.applying_congr h.data ..)
  conditions := hreport.conditions.trans (Finding.applying_congr h.data ..)
  resource := by
    rw [hreport.resource, h.resourceType, Finding.applying_congr h.data]
  mode := by
    obtain ⟨htype, hdata⟩ := mode_congr h.mode
    rw [hreport.mode, htype, Finding.applying_congr hdata]
  filters := by
    obtain ⟨filters, hfilters, hfound⟩ := hreport.filters
    rw [← policy.filters_eq_entriesUnder] at hfilters
    rw [← policy'.filters_eq_entriesUnder]
    obtain ⟨filters', hfilters', heq⟩ := h.filters.exists_listsAll FilterAt.eq_ofFilterData
      FilterAt.eq_ofFilterData hfilters (catalog.filter? policy.resourceType)
    rw [h.resourceType] at hfound heq
    exact ⟨filters', hfilters', hfound.trans heq⟩
  actions := by
    obtain ⟨actions, hactions, hfound⟩ := hreport.actions
    rw [← policy.actions_eq_entriesUnder] at hactions
    rw [← policy'.actions_eq_entriesUnder]
    obtain ⟨actions', hactions', heq⟩ := h.actions.exists_listsAll ActionAt.eq_ofFilterData
      ActionAt.eq_ofFilterData hactions (catalog.action? policy.resourceType)
    rw [h.resourceType] at hfound heq
    exact ⟨actions', hactions', hfound.trans heq⟩

theorem SameOutline.report_eq (h : policy.SameOutline policy') (catalog : Catalog) :
    (policy.withRules catalog).report = (policy'.withRules catalog).report :=
  (h.isReport (policy.isReport_report_withRules catalog)).unique
    (policy'.isReport_report_withRules catalog)

end Policy

/-! ## Other values -/

namespace PolicyElement

mutual

/-- What is kept of an entry for filters : the block it is, or the outline of the filter. -/
def filterOutline : Value → Value
  | .string name => .string name
  | .mapping [(key, .list items)] =>
    if blockKeys.contains key then .mapping [(key, .list (filterOutlines items))]
    else .mapping (Mapping.outline [(key, .list items)])
  | .mapping data => .mapping (Mapping.outline data)
  | _ => .null

/-- What is kept of a list of entries for filters. -/
def filterOutlines : List Value → List Value
  | [] => []
  | entry :: entries => filterOutline entry :: filterOutlines entries

end

/-- What is kept of an entry for actions. -/
def actionOutline : Value → Value
  | .string name => .string name
  | .mapping data => .mapping (Mapping.outline data)
  | _ => .null

/-- Outlines of data have no lists, and so they are no blocks. -/
theorem not_isBlock_outline (data : Mapping) (items : List Value) :
    ¬IsBlock (.mapping data.outline) items := by
  intro h
  generalize hdata : data.outline = outline at h
  cases h with
  | @intro key _ hkey =>
    have hmem : (key, Value.list items) ∈ data.outline := by
      rw [hdata]
      exact List.mem_singleton_self _
    cases Mapping.list?_eq_none_of_mem_outline hmem

theorem filterOutline_of_isBlock {value : Value} {items : List Value} (h : IsBlock value items) :
    IsBlock (filterOutline value) (filterOutlines items) := by
  cases h with
  | intro hkey =>
    rw [filterOutline, if_pos (contains_blockKeys_iff.2 hkey)]
    exact .intro hkey

theorem filterOutline_mapping {data : Mapping} (h : ∀ items, ¬IsBlock (.mapping data) items) :
    filterOutline (.mapping data) = .mapping data.outline := by
  by_cases hdata : ∃ key items, data = [(key, .list items)]
  · obtain ⟨key, items, rfl⟩ := hdata
    have hkey : ¬blockKeys.contains key = true := fun hkey =>
      h items (.intro (contains_blockKeys_iff.1 hkey))
    rw [filterOutline, if_neg hkey]
  · rw [filterOutline]
    rintro key items rfl
    exact hdata ⟨key, items, rfl⟩

theorem IsFilter.exists_filterOutline {value : Value} {filter : PolicyElement}
    (h : IsFilter value filter) :
    ∃ outline, IsFilter (filterOutline value) outline ∧ filter.SameOutline outline := by
  have hmapping : ∀ data : Mapping, (∀ items, ¬IsBlock (.mapping data) items) →
      ∃ outline, IsFilter (filterOutline (.mapping data)) outline ∧
        data.SameOutline outline.data := by
    intro data hblock
    rw [filterOutline_mapping hblock]
    exact ⟨_, (isFilter_mapping_iff (not_isBlock_outline data)).2 rfl, data.sameOutline_outline⟩
  cases h with
  | name type => exact ⟨_, .name type, fun _ => rfl, rfl⟩
  | typed hblock => exact hmapping _ hblock
  | untyped hblock => exact hmapping _ hblock

theorem filterOutline_of_not {value : Value} (hblock : ∀ items, ¬IsBlock value items)
    (hfilter : ∀ filter, ¬IsFilter value filter) : filterOutline value = .null := by
  cases value with
  | string name => exact absurd (.name name) (hfilter _)
  | mapping data => exact absurd ((isFilter_mapping_iff hblock).2 rfl) (hfilter _)
  | _ => rfl

/-- What is kept of filters has the outlines of the filters. -/
theorem forall₂_filterLeavesOf_filterOutlines (entries : List Value) : List.Forall₂ SameOutline
    (filterLeavesOf entries) (filterLeavesOf (filterOutlines entries)) := by
  refine forest_induction
    (P := fun value =>
      List.Forall₂ SameOutline (filterLeaves value) (filterLeaves (filterOutline value)))
    (Q := fun entries => List.Forall₂ SameOutline (filterLeavesOf entries)
      (filterLeavesOf (filterOutlines entries)))
    (fun value items hblock ih => ?_) (fun value filter hfilter => ?_)
    (fun value hblock hfilter => ?_) .nil (fun entry entries hentry ih => ?_) entries
  · rw [filterLeaves_of_isBlock hblock, filterLeaves_of_isBlock (filterOutline_of_isBlock hblock)]
    exact ih
  · obtain ⟨outline, houtline, hsame⟩ := hfilter.exists_filterOutline
    rw [filterLeaves_of_isFilter hfilter, filterLeaves_of_isFilter houtline]
    exact .cons hsame .nil
  · rw [filterLeaves_of_not hblock hfilter, filterOutline_of_not hblock hfilter]
    exact .nil
  · rw [filterOutlines, filterLeavesOf, filterLeavesOf]
    exact List.rel_append hentry ih

theorem action?_actionOutline (entry : Value) :
    Option.Rel SameOutline (action? entry) (action? (actionOutline entry)) := by
  cases entry with
  | string name => exact .some ⟨fun _ => rfl, rfl⟩
  | mapping data =>
    have hdata := Mapping.sameOutline_outline data
    rw [actionOutline, action?, action?, ← hdata.type]
    cases Mapping.string? data "type" with
    | none => exact .none
    | some name => exact .some hdata
  | _ => exact .none

/-- What is kept of actions has the outlines of the actions. -/
theorem forall₂_filterMap_actionOutline (entries : List Value) :
    List.Forall₂ SameOutline (entries.filterMap action?)
      ((entries.map actionOutline).filterMap action?) := by
  refine List.rel_filterMap (R := fun entry outline => outline = actionOutline entry) ?_ ?_
  · rintro entry _ rfl
    exact action?_actionOutline entry
  · exact List.forall₂_map_right_iff.2 (List.forall₂_same.2 fun _ _ => rfl)

end PolicyElement

namespace Policy

/-- What is kept of the value of a key. -/
def keptValue : String → Value → Value
  | "type", value => value.textOnly
  | "mode", .mapping data => .mapping (Mapping.outline data)
  | "filters", .list entries => .list (PolicyElement.filterOutlines entries)
  | "actions", .list entries => .list (entries.map PolicyElement.actionOutline)
  | _, _ => .null

/-- The policy with nothing but what has to be there for its outline. All of its keys are there,
and the entries of its lists, but any value that reports do not read is left out. -/
def outline (policy : Policy) : Policy :=
  { policy with data := policy.data.mapValues keptValue }

theorem filters_outline (policy : Policy) :
    policy.outline.filters = PolicyElement.filterOutlines policy.filters := by
  unfold filters list outline
  rw [Mapping.get?_mapValues]
  cases policy.data.get? "filters" with
  | none => rfl
  | some value => cases value <;> rfl

theorem actions_outline (policy : Policy) :
    policy.outline.actions = policy.actions.map PolicyElement.actionOutline := by
  unfold actions list outline
  rw [Mapping.get?_mapValues]
  cases policy.data.get? "actions" with
  | none => rfl
  | some value => cases value <;> rfl

theorem rel_mode_outline (policy : Policy) :
    Option.Rel Mapping.SameOutline policy.mode policy.outline.mode := by
  unfold mode outline
  rw [Mapping.get?_mapValues]
  cases policy.data.get? "mode" with
  | none => exact .none
  | some value =>
    cases value with
    | mapping data => exact .some (Mapping.sameOutline_outline data)
    | _ => exact .none

theorem sameOutline_outline (policy : Policy) : policy.SameOutline policy.outline where
  name := rfl
  resourceType := rfl
  data := Mapping.sameOutline_mapValues Value.string?_textOnly
  mode := policy.rel_mode_outline
  filters := by
    rw [PolicyElement.sameOutlines_filterAt_iff, filters_outline]
    exact PolicyElement.forall₂_filterLeavesOf_filterOutlines policy.filters
  actions := by
    rw [PolicyElement.sameOutlines_actionAt_iff, actions_outline]
    exact PolicyElement.forall₂_filterMap_actionOutline policy.actions

/-- The report on a policy depends on its outline only. No value that is left out of it matters,
at whatever depth it stands. -/
theorem report_withRules_congr_outline (catalog : Catalog) :
    (∀ policy policy' : Policy, policy.SameOutline policy' →
      (policy.withRules catalog).report = (policy'.withRules catalog).report) ∧
    ∀ policy policy' : Policy, policy.outline = policy'.outline →
      (policy.withRules catalog).report = (policy'.withRules catalog).report := by
  refine ⟨fun _ _ h => h.report_eq catalog, fun policy policy' h => ?_⟩
  rw [policy.sameOutline_outline.report_eq, h, ← policy'.sameOutline_outline.report_eq]

/-- One policy has its elements spelled out and its filters in other blocks, and one differs in
values that reports do not read. -/
theorem report_withRules_congr_outline_sample :
    let region : Rule := { id := 1, kind := .field "region" "conditions" }
    let key : Rule := { id := 2, kind := .optionality ["key"] }
    let catalog := ((∅ : Catalog).addPolicyRule region).registerFilter [] ⟨["tag"], [key]⟩
    let policy (value : Value) : Policy := ⟨"p", "aws.ec2",
      [("actions", .list [.string "stop", value]),
        ("filters", .list [.mapping [("or", .list [.string "tag",
          .mapping [("key", value), ("type", .string "tag")]])]]), ("region", value)]⟩
    let policy' : Policy := ⟨"p", "aws.ec2",
      [("actions", .list [.mapping [("type", .string "stop")]]),
        ("filters", .list [.mapping [("type", .string "tag")],
          .mapping [("not", .list [.mapping [("key", .null), ("type", .string "tag")]])]]),
        ("region", .string "us")]⟩
    let deep : Value := .list [.mapping [("type", .string "tag")]]
    let report : Report := {
      policyName := "p"
      policyFields := [⟨region, none⟩]
      filters := [⟨key, some "tag:"⟩] }
    (policy .null).SameOutline policy' ∧ (policy'.withRules catalog).report = report ∧
      (policy .null).outline = (policy deep).outline ∧
      ((policy deep).withRules catalog).report = report := by
  intro region key catalog policy policy' deep report
  have hsame : (policy .null).SameOutline policy' := {
    name := rfl
    resourceType := rfl
    data := ⟨fun _ => rfl, rfl⟩
    mode := .none
    filters := PolicyElement.sameOutlines_filterAt_iff.2
      (.cons ⟨fun _ => rfl, rfl⟩ (.cons ⟨fun _ => rfl, rfl⟩ .nil))
    actions := PolicyElement.sameOutlines_actionAt_iff.2 (.cons ⟨fun _ => rfl, rfl⟩ .nil) }
  have houtline : (policy .null).outline = (policy deep).outline := by rfl
  have hreport : ((policy .null).withRules catalog).report = report := by decide
  refine ⟨hsame, ?_, houtline, ?_⟩
  · rw [← (report_withRules_congr_outline catalog).1 _ _ hsame, hreport]
  · rw [← (report_withRules_congr_outline catalog).2 _ _ houtline, hreport]

end Policy

end PolicyLint
