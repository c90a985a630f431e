import PolicyLint.Proofs.Catalog.Listing
import PolicyLint.Proofs.Catalog.Steps

/-!
# Catalogs that are built

A draft of a catalog has entries, section after section (`CatalogDraft.entries`). Each takes its
steps, and leads to the registration that it describes. The catalog that is built takes up these
registrations in order, which is also the order of the numbers of its rules.

Main statement : if no step of a draft fails, building it gives the catalog of the registrations
it describes, with the next numbers on the counter, and if some step fails, building ends with
the error of the first one and has numbered the rules before it (`CatalogDraft.run_build`).
-/

namespace PolicyLint

open Construction (Numbers Performs)

/-! ## Entries of a draft -/

/-- The steps of an element in the section `place`. The place of its rules has its first name,
which is there if the first step passes. -/
def ElementDraft.steps (place : String) (draft : ElementDraft) : List BuildStep :=
  .names place draft.names ::
    draft.deprecations.map (.rule (place ++ "." ++ draft.names.headD ""))

/-- An element is as its draft describes it. -/
structure ElementDraft.Describes (draft : ElementDraft) (element : ElementType) : Prop where
  names : element.names = draft.names
  rules : List.Forall₂ RuleDraft.Describes draft.deprecations element.rules

/-- An entry of the draft of a catalog. -/
inductive CatalogEntry
  | policyRule (draft : RuleDraft)
  | conditionRule (draft : RuleDraft)
  | mode (draft : ElementDraft)
  | resourceRule (resource : String) (draft : RuleDraft)
  | filter (draft : ElementDraft)
  | action (draft : ElementDraft)

namespace CatalogEntry

/-- The steps of an entry. -/
def steps : CatalogEntry → List BuildStep
  | policyRule draft => [.rule "policy" draft]
  | conditionRule draft => [.rule "conditions" draft]
  | mode draft => draft.steps "modes"
  | resourceRule resource draft => [.rule ("resources." ++ resource) draft]
  | filter draft => draft.steps "filters"
  | action draft => draft.steps "actions"

/-- A registration is as an entry describes it. -/
inductive Describes : CatalogEntry → Registration → Prop
  | policyRule {draft : RuleDraft} {rule : Rule} (h : draft.Describes rule) :
    Describes (policyRule draft) (.policyRule rule)
  | conditionRule {draft : RuleDraft} {rule : Rule} (h : draft.Describes rule) :
    Describes (conditionRule draft) (.conditionRule rule)
  | mode {draft : ElementDraft} {element : ElementType} (h : draft.Describes element) :
    Describes (mode draft) (.mode element)
  | resourceRule {resource : String} {draft : RuleDraft} {rule : Rule}
    (h : draft.Describes rule) :
    Describes (resourceRule resource draft) (.resourceRule resource rule)
  | filter {draft : ElementDraft} {element : ElementType} (h : draft.Describes element) :
    Describes (filter draft) (.filter draft.resources element)
  | action {draft : ElementDraft} {element : ElementType} (h : draft.Describes element) :
    Describes (action draft) (.action draft.resources element)

end CatalogEntry

namespace CatalogDraft

/-- The entries of a draft, in the order in which they are built. -/
def entries (draft : CatalogDraft) : List CatalogEntry :=
  draft.policy.map .policyRule ++ draft.conditions.map .conditionRule ++
    draft.modes.map .mode ++
    draft.resources.flatMap (fun resource =>
      resource.deprecations.map (.resourceRule resource.resource)) ++
    draft.filters.map .filter ++ draft.actions.map .action

/-- The steps of building a catalog. -/
def steps (draft : CatalogDraft) : List BuildStep :=
  draft.entries.flatMap CatalogEntry.steps

end CatalogDraft

/-- Entries lead to a log, whose rules have the given numbers in order. -/
structure Logs (entries : List CatalogEntry) (ids : List Nat) (log : List Registration) :
    Prop where
  describes : List.Forall₂ CatalogEntry.Describes entries log
  ids_eq : ids = (log.flatMap Registration.listed).map ListedRule.id

theorem Logs.append {entries entries' : List CatalogEntry} {ids ids' : List Nat}
    {log log' : List Registration} (h : Logs entries ids log) (h' : Logs entries' ids' log') :
    Logs (entries ++ entries') (ids ++ ids') (log ++ log') where
  describes := List.rel_append h.describes h'.describes
  ids_eq := by
    rw [List.flatMap_append, List.map_append, ← h.ids_eq, ← h'.ids_eq]

theorem Logs.singleton {entry : CatalogEntry} {registration : Registration} {ids : List Nat}
    (h : entry.Describes registration) (hids : ids = registration.listed.map ListedRule.id) :
    Logs [entry] ids [registration] where
  describes := .cons h .nil
  ids_eq := by
    rw [List.flatMap_singleton, hids]

theorem ListedRule.map_id_ofRules (place : Section) (element : String) (rules : List Rule) :
    (ofRules place element rules).map ListedRule.id = rules.map Rule.id := by
  rw [ofRules, List.map_map]
  rfl

/-! ## Constructing the entries -/

theorem RuleDraft.performs_buildAll (place : String) (drafts : List RuleDraft) :
    Performs (RuleDraft.buildAll place drafts) (drafts.map (.rule place)) fun ids rules =>
      List.Forall₂ RuleDraft.Describes drafts rules ∧ ids = rules.map Rule.id := by
  rw [List.map_eq_flatMap]
  refine .mapM (fun drafts ids rules =>
      List.Forall₂ RuleDraft.Describes drafts rules ∧ ids = rules.map Rule.id)
    ⟨.nil, rfl⟩ (fun hrule hrules => ?_) (RuleDraft.performs_build place) drafts
  rw [hrule.2, hrules.2]
  exact ⟨.cons hrule.1 hrules.1, rfl⟩

theorem ElementDraft.performs_build (place : String) (draft : ElementDraft) :
    Performs (draft.build place) (draft.steps place) fun ids element =>
      draft.Describes element ∧ ids = element.rules.map Rule.id := by
  unfold ElementDraft.build ElementDraft.steps
  cases hnames : draft.names with
  | nil => exact .throw .names _
  | cons name names =>
    refine .names_cons _ _ _ ?_
    refine (RuleDraft.performs_buildAll _ _).map fun ids rules hrules => ?_
    exact ⟨⟨hnames.symm, hrules.1⟩, hrules.2⟩

/-- Items that each lead to entries of a draft do so one after the other. -/
theorem Construction.Performs.mapM_logs {α β : Type} {f : α → Construction LoadError β}
    {entries : α → List CatalogEntry} {logOf : β → List Registration}
    (h : ∀ x, Performs (f x) ((entries x).flatMap CatalogEntry.steps) fun ids y =>
      Logs (entries x) ids (logOf y)) (xs : List α) :
    Performs (xs.mapM f) ((xs.flatMap entries).flatMap CatalogEntry.steps) fun ids ys =>
      Logs (xs.flatMap entries) ids (ys.flatMap logOf) := by
  rw [List.flatMap_assoc]
  exact .mapM (fun xs ids ys => Logs (xs.flatMap entries) ids (ys.flatMap logOf))
    ⟨.nil, rfl⟩ (fun hfirst hrest => hfirst.append hrest) h xs

/-- The rules at a place, each of which leads to one registration. -/
theorem RuleDraft.logs_buildAll {place : String} (entry : RuleDraft → CatalogEntry)
    (registration : Rule → Registration)
    (hsteps : ∀ draft, (entry draft).steps = [.rule place draft])
    (hentry : ∀ {draft rule}, draft.Describes rule →
      (entry draft).Describes (registration rule))
    (hids : ∀ rule, (registration rule).listed.map ListedRule.id = [rule.id])
    (drafts : List RuleDraft) :
    Performs (RuleDraft.buildAll place drafts)
      ((drafts.map entry).flatMap CatalogEntry.steps) fun ids rules =>
        Logs (drafts.map entry) ids (rules.map registration) := by
  simp only [List.map_eq_flatMap]
  refine .mapM_logs (fun draft => ?_) drafts
  rw [List.flatMap_singleton, hsteps]
  refine (draft.performs_build place).imp fun ids rule hrule => ?_
  exact .singleton (hentry hrule.1) (hrule.2.trans (hids rule).symm)

/-- The elements of a section, each of which leads to one registration. -/
theorem ElementDraft.logs_buildAll {place : String} (entry : ElementDraft → CatalogEntry)
    (registration : List String × ElementType → Registration)
    (hsteps : ∀ draft, (entry draft).steps = draft.steps place)
    (hentry : ∀ {draft element}, draft.Describes element →
      (entry draft).Describes (registration (draft.resources, element)))
    (hids : ∀ resources element, (registration (resources, element)).listed.map ListedRule.id =
      element.rules.map Rule.id)
    (drafts : List ElementDraft) :
    Performs (ElementDraft.buildAll place drafts)
      ((drafts.map entry).flatMap CatalogEntry.steps) fun ids elements =>
        Logs (drafts.map entry) ids (elements.map registration) := by
  simp only [List.map_eq_flatMap]
  refine .mapM_logs (fun draft => ?_) drafts
  rw [List.flatMap_singleton, hsteps]
  refine (draft.performs_build place).map fun ids element helement => ?_
  exact .singleton (hentry helement.1) (helement.2.trans (hids _ element).symm)

/-- The rules of resource types, in the order of the types. -/
theorem ResourceDraft.logs_mapM_build (drafts : List ResourceDraft) :
    Performs (drafts.mapM ResourceDraft.build)
      ((drafts.flatMap fun draft => draft.deprecations.map (.resourceRule draft.resource)).flatMap
        CatalogEntry.steps) fun ids rules =>
        Logs (drafts.flatMap fun draft => draft.deprecations.map (.resourceRule draft.resource))
          ids (rules.flatten.map fun (name, rule) => .resourceRule name rule) := by
  simp only [List.map_flatten, ← List.flatMap_def]
  refine .mapM_logs (fun draft => ?_) drafts
  refine (RuleDraft.logs_buildAll (.resourceRule draft.resource) (.resourceRule draft.resource)
    (fun _ => rfl) .resourceRule (fun _ => rfl) _).map fun ids rules hrules => ?_
  rw [List.map_map]
  exact hrules

/-! ## The catalog -/

/-- Rules that a catalog takes up behind those it has. -/
theorem Registration.foldl_map_rules {place : Rule → Registration}
    {withRules : List Rule → Catalog}
    (hstep : ∀ rules rule, applyTo (withRules rules) (place rule) = withRules (rules ++ [rule]))
    (before rules : List Rule) :
    (rules.map place).foldl applyTo (withRules before) = withRules (before ++ rules) := by
  induction rules generalizing before with
  | nil =>
    rw [List.append_nil]
    rfl
  | cons rule rules ih =>
    rw [List.map_cons, List.foldl_cons, hstep, ih, ← List.append_cons]

/-- The rules on policies and on condition blocks, taken up one after the other. -/
theorem Registration.foldl_rules (policyRules conditionRules : List Rule) :
    (policyRules.map policyRule ++ conditionRules.map conditionRule).foldl applyTo ∅ =
      { policyRules, conditionRules } := by
  have hpolicy : ∀ rules rule, applyTo { policyRules := rules } (policyRule rule) =
      { policyRules := rules ++ [rule] } := fun _ _ => rfl
  have hcondition : ∀ rules rule,
      applyTo { policyRules, conditionRules := rules } (conditionRule rule) =
        { policyRules, conditionRules := rules ++ [rule] } := fun _ _ => rfl
  have hfirst := foldl_map_rules hpolicy [] policyRules
  have hsecond := foldl_map_rules hcondition [] conditionRules
  rw [List.nil_append] at hfirst hsecond
  rw [List.foldl_append, ← hsecond, ← hfirst]
  rfl

theorem CatalogDraft.performs_build (draft : CatalogDraft) :
    Performs draft.build draft.steps fun ids catalog =>
      ∃ log, Logs draft.entries ids log ∧ catalog = log.foldl Registration.applyTo ∅ := by
  simp only [steps, entries, List.flatMap_append, List.append_assoc]
  refine (RuleDraft.logs_buildAll .policyRule .policyRule (fun _ => rfl) .policyRule
    (fun _ => rfl) draft.policy).bind fun _ policyRules hpolicy => ?_
  refine (RuleDraft.logs_buildAll .conditionRule .conditionRule (fun _ => rfl) .conditionRule
    (fun _ => rfl) draft.conditions).bind fun _ conditionRules hconditions => ?_
  refine (ElementDraft.logs_buildAll .mode (fun mode => .mode mode.2) (fun _ => rfl) .mode
    (fun _ _ => ListedRule.map_id_ofRules _ _ _) draft.modes).bind fun _ modes hmodes => ?_
  refine (ResourceDraft.logs_mapM_build draft.resources).bind
    fun _ resourceRules hresources => ?_
  refine (ElementDraft.logs_buildAll .filter (fun filter => .filter filter.1 filter.2)
    (fun _ => rfl) .filter (fun _ _ => ListedRule.map_id_ofRules _ _ _) draft.filters).bind
    fun _ filters hfilters => ?_
  refine (ElementDraft.logs_buildAll .action (fun action => .action action.1 action.2)
    (fun _ => rfl) .action (fun _ _ => ListedRule.map_id_ofRules _ _ _) draft.actions).map
    fun _ actions hactions => ?_
  refine ⟨_, hpolicy.append (hconditions.append (hmodes.append (hresources.append
    (hfilters.append hactions)))), ?_⟩
  -- The catalog starts out with the first two sections and takes up the others one by one.
  rw [← List.append_assoc, List.foldl_append, Registration.foldl_rules]
  simp only [List.foldl_append, List.foldl_map]
  rfl

theorem Catalog.Records.foldl {catalog : Catalog} {log : List Registration}
    (h : catalog.Records log) (registrations : List Registration) :
    (registrations.foldl Registration.applyTo catalog).Records (log ++ registrations) := by
  induction registrations generalizing catalog log with
  | nil =>
    rw [List.append_nil]
    exact h
  | cons registration registrations ih =>
    rw [List.append_cons]
    refine ih ?_
    rw [registration.applyTo_eq_extend]
    exact h.extend registration.records_alone

/-- Building a draft goes through its steps in order. If none fails, the catalog has the
registrations that the entries describe, look-ups find these, and their rules have the next
numbers on the counter. Otherwise the first step that fails gives the error, after the rules
before it are numbered. -/
theorem CatalogDraft.run_build (draft : CatalogDraft) (registry : Registry) :
    (Passes BuildStep.Fails draft.steps →
      ∃ log registry', List.Forall₂ CatalogEntry.Describes draft.entries log ∧
        draft.build.run.run registry = (.ok (log.foldl Registration.applyTo ∅), registry') ∧
        (log.foldl Registration.applyTo ∅).Follows log ∧
        (log.flatMap Registration.listed).map (fun listed => listed.rule.word) =
          (List.range (ruleCount draft.steps)).map (fun i => registry.word + .ofNat i) ∧
        registry'.word = registry.word + .ofNat (ruleCount draft.steps)) ∧
    ((∃ step ∈ draft.steps, ∃ error, step.Fails error) →
      ∃ done error registry', FailsAfter BuildStep.Fails draft.steps done error ∧
        draft.build.run.run registry = (.error error, registry') ∧
        registry'.word = registry.word + .ofNat (ruleCount done)) := by
  have hreaches := draft.performs_build registry
  generalize draft.build.run.run registry = ended at hreaches
  cases hreaches with
  | complete hpass hvalue =>
    obtain ⟨log, hlog, rfl⟩ := hvalue
    have hwords : (log.flatMap Registration.listed).map (fun listed => listed.rule.word) =
        (List.range (ruleCount draft.steps)).map (fun i => registry.word + .ofNat i) := by
      rw [← registry.map_ofNat_range', hlog.ids_eq, List.map_map]
      rfl
    refine ⟨fun _ => ⟨log, _, hlog.describes, rfl, (Catalog.records_empty.foldl log).follows,
      hwords, Registry.word_mk_add _ _⟩, ?_⟩
    rintro ⟨step, hstep, error, hfails⟩
    exact absurd hfails (hpass step hstep error)
  | @stopped done error hfails =>
    exact ⟨fun hpass => absurd hpass hfails.not_passes,
      fun _ => ⟨done, error, _, hfails, rfl, Registry.word_mk_add _ _⟩⟩

/-- A mode without a name ends the building. The rule before it has taken the last number of the
counter. -/
example : ({ policy := [{ form := .field "a" "b" }], modes := [{ names := [] }] } :
    CatalogDraft).build.run.run ⟨2 ^ 64 - 1⟩ = (.error (.unnamedElement "modes"), ⟨2 ^ 64⟩) ∧
    Registry.word ⟨2 ^ 64⟩ = 0 :=
  ⟨rfl, rfl⟩

/-! ## The numbers of its rules -/

/-- A catalog records rules with the given numbers, in order. -/
def Catalog.RecordsIds (ids : List Nat) (catalog : Catalog) : Prop :=
  ∃ log, catalog.Records log ∧ ids = (log.flatMap Registration.listed).map ListedRule.id

/-- A catalog that is built records rules with the numbers used. -/
theorem CatalogDraft.numbers_build (draft : CatalogDraft) :
    draft.build.Numbers Catalog.RecordsIds := by
  refine Performs.numbers (draft.performs_build.imp fun ids catalog hcatalog => ?_)
  obtain ⟨log, hlog, rfl⟩ := hcatalog
  exact ⟨log, Catalog.records_empty.foldl log, hlog.ids_eq⟩

end PolicyLint
