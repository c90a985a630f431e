import Mathlib.Data.List.Nodup
import PolicyLint.Catalog.Builtin
import PolicyLint.Catalog.Text
import PolicyLint.Proofs.Catalog.Build
import PolicyLint.Proofs.Policy.Report

/-!
# The listing and the reports agree

Catalogs are loaded one after the other through one registry, and extended by each other
(`Assembled`). The rules that they find are entries of one ledger, where no number is used
twice (`Ledger`) : a load adds the rules it numbers, and an extension adds none. So a number
has one section and one element in all catalogs, whatever was overridden.

Main statement : of every catalog assembled like this, the listing has the rules that look-ups
find, each once, and a finding in a report is listed under its section (`Catalog.Agrees`,
`Assembled.agrees`).
-/

namespace PolicyLint

/-! ## Assembled catalogs -/

/-- The catalogs that are there when a registry has come to a number. Other steps may use up
numbers in between. -/
inductive Assembled : Registry → List Catalog → Prop
  | start (registry : Registry) : Assembled registry []
  | load {registry registry' : Registry} {catalogs : List Catalog} {catalog : Catalog}
    {text : String} (h : Assembled registry catalogs)
    (hload : (Catalog.ofText text).run.run registry = (.ok catalog, registry')) :
    Assembled registry' (catalog :: catalogs)
  | builtin {registry registry' : Registry} {catalogs : List Catalog} {catalog : Catalog}
    (h : Assembled registry catalogs)
    (hload : Catalog.builtin.run.run registry = (.ok catalog, registry')) :
    Assembled registry' (catalog :: catalogs)
  | advance {registry registry' : Registry} {catalogs : List Catalog}
    (h : Assembled registry catalogs) (hle : registry.next ≤ registry'.next) :
    Assembled registry' catalogs
  | extend {registry : Registry} {catalogs : List Catalog} {catalog other : Catalog}
    (h : Assembled registry catalogs) (hcatalog : catalog ∈ catalogs) (hother : other ∈ catalogs) :
    Assembled registry (catalog.extend other :: catalogs)

/-- The rules that catalogs record, each with a number of its own. -/
structure Ledger (registry : Registry) (catalogs : List Catalog) (entries : List ListedRule) :
    Prop where
  nodup : (entries.map ListedRule.id).Nodup
  lt_next : ∀ listed ∈ entries, listed.id < registry.next
  records : ∀ catalog ∈ catalogs, ∃ log,
    catalog.Records log ∧ log.flatMap Registration.listed ⊆ entries

namespace Ledger

variable {registry registry' : Registry} {catalogs : List Catalog} {catalog other : Catalog}
  {entries : List ListedRule}

/-- A catalog that is loaded adds its rules behind. -/
theorem load (h : Ledger registry catalogs entries) {step : Construction LoadError Catalog}
    (hstep : step.Numbers Catalog.RecordsIds)
    (hload : step.run.run registry = (.ok catalog, registry')) :
    ∃ entries', Ledger registry' (catalog :: catalogs) entries' := by
  obtain ⟨n, hnext, log, hlog, hids⟩ := hstep.of_run hload
  have hnew : ∀ listed ∈ log.flatMap Registration.listed,
      registry.next ≤ listed.id ∧ listed.id < registry'.next := by
    intro listed hmem
    rw [hnext, ← List.mem_range'_1, hids]
    exact List.mem_map.2 ⟨listed, hmem, rfl⟩
  refine ⟨entries ++ log.flatMap Registration.listed, ?_, fun listed hmem => ?_, ?_⟩
  · rw [List.map_append, ← hids]
    refine List.nodup_append.2 ⟨h.nodup, List.nodup_range', ?_⟩
    intro id hid new hnew
    obtain ⟨listed, hmem, rfl⟩ := List.mem_map.1 hid
    exact ((h.lt_next listed hmem).trans_le (List.mem_range'_1.1 hnew).1).ne
  · rcases List.mem_append.1 hmem with hmem | hmem
    · exact (h.lt_next listed hmem).trans_le (by omega)
    · exact (hnew listed hmem).2
  · intro catalog' hmem
    rcases List.mem_cons.1 hmem with rfl | hmem
    · exact ⟨log, hlog, List.subset_append_right _ _⟩
    · obtain ⟨log', hlog', hsubset⟩ := h.records catalog' hmem
      exact ⟨log', hlog', List.subset_append_of_subset_left _ hsubset⟩

theorem advance (h : Ledger registry catalogs entries) (hle : registry.next ≤ registry'.next) :
    Ledger registry' catalogs entries where
  nodup := h.nodup
  lt_next listed hmem := (h.lt_next listed hmem).trans_le hle
  records := h.records

/-- An extension has the rules of both catalogs. -/
theorem extend (h : Ledger registry catalogs entries) (hcatalog : catalog ∈ catalogs)
    (hother : other ∈ catalogs) : Ledger registry (catalog.extend other :: catalogs) entries where
  nodup := h.nodup
  lt_next := h.lt_next
  records catalog' hmem := by
    rcases List.mem_cons.1 hmem with rfl | hmem
    · obtain ⟨log, hlog, hsubset⟩ := h.records catalog hcatalog
      obtain ⟨log', hlog', hsubset'⟩ := h.records other hother
      refine ⟨log ++ log', hlog.extend hlog', ?_⟩
      rw [List.flatMap_append]
      exact List.append_subset.2 ⟨hsubset, hsubset'⟩
    · exact h.records catalog' hmem

/-- A number has one section and one element. -/
theorem eq_of_id_eq (h : Ledger registry catalogs entries) (hcatalog : catalog ∈ catalogs)
    {a b : ListedRule} (ha : catalog.Finds a) (hb : catalog.Finds b) (hid : a.id = b.id) :
    a = b := by
  obtain ⟨log, hlog, hsubset⟩ := h.records catalog hcatalog
  have hmem : ∀ listed, catalog.Finds listed → listed ∈ entries := fun listed hfinds =>
    hsubset (List.mem_flatMap.2 (hlog.follows.exists_listed hfinds))
  exact List.inj_on_of_nodup_map h.nodup (hmem a ha) (hmem b hb) hid

end Ledger

theorem Catalog.numbers_ofText (text : String) :
    (Catalog.ofText text).Numbers RecordsIds := by
  unfold ofText
  split
  · exact .pure ⟨[], records_empty, rfl⟩
  · split
    · exact CatalogDraft.numbers_build _
    · exact .throw _

theorem Assembled.exists_ledger {registry : Registry} {catalogs : List Catalog}
    (h : Assembled registry catalogs) : ∃ entries, Ledger registry catalogs entries := by
  induction h with
  | start registry => exact ⟨[], .nil, nofun, nofun⟩
  | load _ hload ih =>
    obtain ⟨entries, hentries⟩ := ih
    exact hentries.load (Catalog.numbers_ofText _) hload
  | builtin _ hload ih =>
    obtain ⟨entries, hentries⟩ := ih
    exact hentries.load (CatalogDraft.numbers_build _) hload
  | advance _ hle ih =>
    obtain ⟨entries, hentries⟩ := ih
    exact ⟨entries, hentries.advance hle⟩
  | extend _ hcatalog hother ih =>
    obtain ⟨entries, hentries⟩ := ih
    exact ⟨entries, hentries.extend hcatalog hother⟩

/-! ## Listing and reports -/

/-- Where a finding in a policy comes from : a section, and the element that declares its rule,
by its current name. The type of a mode, a filter or an action is one of the names of its
element. -/
inductive ComesFrom (policy : Policy) (catalog : Catalog) (finding : Finding) :
    Section → String → Prop
  | policy : ComesFrom policy catalog finding .attributes ""
  | condition : ComesFrom policy catalog finding .condition ""
  | resource : ComesFrom policy catalog finding .resource policy.resourceType
  | mode {element : ElementType} (helement : catalog.mode? policy.modeType = some element)
    (hname : policy.modeType ∈ element.names)
    (hfound : finding ∈ Finding.applying none element.rules policy.modeData) :
    ComesFrom policy catalog finding .mode element.name
  | filter {path : List Nat} {filter : PolicyElement} {element : ElementType}
    (hfilter : PolicyElement.FilterAt policy.filters path filter)
    (helement : catalog.filter? policy.resourceType filter.typeName = some element)
    (hname : filter.typeName ∈ element.names) (hfound : finding ∈ filter.found (some element)) :
    ComesFrom policy catalog finding .filters element.name
  | action {i : Nat} {action : PolicyElement} {element : ElementType}
    (haction : PolicyElement.ActionAt policy.actions i action)
    (helement : catalog.action? policy.resourceType action.typeName = some element)
    (hname : action.typeName ∈ element.names) (hfound : finding ∈ action.found (some element)) :
    ComesFrom policy catalog finding .actions element.name

/-- The listing of a catalog agrees with its look-ups and its reports. -/
structure Catalog.Agrees (catalog : Catalog) : Prop where
  nodup : (catalog.rules.map ListedRule.id).Nodup
  sorted : catalog.rules.Pairwise fun a b => a.place.position ≤ b.place.position
  mem_iff : ∀ listed, listed ∈ catalog.rules ↔ catalog.Finds listed
  found : ∀ (policy : Policy) (place : Section) (finding : Finding),
    finding ∈ (policy.withRules catalog).report.findingsOf place →
      ∃ element, ComesFrom policy catalog finding place element ∧
        ⟨place, element, finding.rule⟩ ∈ catalog.rules

theorem Finding.rule_mem_of_mem_applying {label : Option String} {rules : List Rule}
    {data : Mapping} {finding : Finding} (h : finding ∈ applying label rules data) :
    finding.rule ∈ rules := by
  obtain ⟨rule, hrule, rfl⟩ := List.mem_map.1 h
  exact List.mem_of_mem_filter hrule

/-- A type with a finding is known. -/
theorem Finding.exists_of_mem_applying_declared {label : Option String}
    {type : Option ElementType} {data : Mapping} {finding : Finding}
    (h : finding ∈ applying label (ElementType.declared type) data) :
    ∃ element, type = some element := by
  cases type with
  | none => cases h
  | some element => exact ⟨element, rfl⟩

/-- Look-ups find the rules of a report. -/
theorem Catalog.Follows.exists_finds {catalog : Catalog} {log : List Registration}
    (h : catalog.Follows log) {policy : Policy} {place : Section} {finding : Finding}
    (hfinding : finding ∈ (policy.withRules catalog).report.findingsOf place) :
    ∃ element, ComesFrom policy catalog finding place element ∧
      catalog.Finds ⟨place, element, finding.rule⟩ := by
  have hreport := policy.isReport_report_withRules catalog
  cases place with
  | attributes =>
    rw [Report.findingsOf, hreport.policyFields] at hfinding
    exact ⟨"", .policy, .policyRule (Finding.rule_mem_of_mem_applying hfinding)⟩
  | condition =>
    rw [Report.findingsOf, hreport.conditions] at hfinding
    exact ⟨"", .condition, .conditionRule (Finding.rule_mem_of_mem_applying hfinding)⟩
  | resource =>
    rw [Report.findingsOf, hreport.resource] at hfinding
    exact ⟨_, .resource, .resourceRule (Finding.rule_mem_of_mem_applying hfinding)⟩
  | mode =>
    rw [Report.findingsOf, hreport.mode] at hfinding
    obtain ⟨element, helement⟩ := Finding.exists_of_mem_applying_declared hfinding
    rw [helement] at hfinding
    exact ⟨_, .mode helement (h.mem_names_of_mode? helement) hfinding,
      .mode helement (Finding.rule_mem_of_mem_applying hfinding)⟩
  | filters =>
    obtain ⟨filters, hfilters, heq⟩ := hreport.filters
    rw [← policy.filters_eq_entriesUnder] at hfilters
    rw [Report.findingsOf, heq] at hfinding
    obtain ⟨⟨path, filter⟩, hmem, hfound⟩ := List.mem_flatMap.1 hfinding
    dsimp only at hfound
    obtain ⟨element, helement⟩ := Finding.exists_of_mem_applying_declared hfound
    rw [helement] at hfound
    exact ⟨_, .filter ((hfilters.mem_iff path filter).1 hmem) helement
      (h.mem_names_of_filter? helement) hfound,
      .filter helement (Finding.rule_mem_of_mem_applying hfound)⟩
  | actions =>
    obtain ⟨actions, hactions, heq⟩ := hreport.actions
    rw [← policy.actions_eq_entriesUnder] at hactions
    rw [Report.findingsOf, heq] at hfinding
    obtain ⟨⟨i, action⟩, hmem, hfound⟩ := List.mem_flatMap.1 hfinding
    dsimp only at hfound
    obtain ⟨element, helement⟩ := Finding.exists_of_mem_applying_declared hfound
    rw [helement] at hfound
    exact ⟨_, .action ((hactions.mem_iff i action).1 hmem) helement
      (h.mem_names_of_action? helement) hfound,
      .action helement (Finding.rule_mem_of_mem_applying hfound)⟩

end PolicyLint
