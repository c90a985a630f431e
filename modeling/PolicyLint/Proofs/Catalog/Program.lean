import PolicyLint.Catalog.Text
import PolicyLint.Proofs.Catalog.Build
import PolicyLint.Proofs.Rule.Program

/-!
# Loading a catalog as a program

A catalog is loaded by a program that requests its rules one after the other, entry by entry.
Run on its own, the program builds the catalog (`CatalogDraft.alone_program`,
`Catalog.alone_program`), and if all rules that it is given have a property, so do those of the
catalog (`Catalog.Holds`), whatever other programs request in between.
-/

namespace PolicyLint

/-! ## The programs -/

/-- Request the rule of a catalog at a place of it. -/
def RuleDraft.program (place : String) (draft : RuleDraft) : Program LoadError Rule :=
  (Request.ofDraft draft).program.mapError (.invalidRule place)

/-- Request the rules of an element in the section `place`. It must have a name. -/
def ElementDraft.program (place : String) (draft : ElementDraft) :
    Program LoadError ElementType :=
  match draft.names with
  | [] => .done (.error (.unnamedElement place))
  | name :: _ => do
    let rules ← draft.deprecations.mapM (RuleDraft.program (place ++ "." ++ name))
    return ⟨draft.names, rules⟩

/-- Request the rules of an entry. -/
def CatalogEntry.program : CatalogEntry → Program LoadError Registration
  | policyRule draft => .policyRule <$> draft.program "policy"
  | conditionRule draft => .conditionRule <$> draft.program "conditions"
  | mode draft => .mode <$> draft.program "modes"
  | resourceRule resource draft =>
    .resourceRule resource <$> draft.program ("resources." ++ resource)
  | filter draft => .filter draft.resources <$> draft.program "filters"
  | action draft => .action draft.resources <$> draft.program "actions"

/-- Request the rules of a catalog, and take them up in it. -/
def CatalogDraft.program (draft : CatalogDraft) : Program LoadError Catalog := do
  let log ← draft.entries.mapM CatalogEntry.program
  return log.foldl Registration.applyTo ∅

/-- Request the rules of the catalog in a text. -/
def Catalog.program (text : String) : Program LoadError Catalog :=
  if Text.isBlank text then pure ∅
  else
    match (Yaml.Tree.ofText? (fun _ => true) text).bind CatalogDraft.ofTree? with
    | some draft => draft.program
    | none => .done (.error .malformed)

/-! ## The programs on their own -/

theorem RuleDraft.alone_program (place : String) (draft : RuleDraft) :
    (draft.program place).alone = draft.build.mapError (.invalidRule place) := by
  rw [program, Program.alone_mapError, Request.alone_program]
  rfl

theorem RuleDraft.alone_mapM_program (place : String) (drafts : List RuleDraft) :
    (drafts.mapM (RuleDraft.program place)).alone = RuleDraft.buildAll place drafts := by
  simp only [Program.alone_mapM, alone_program]
  rfl

theorem ElementDraft.alone_program (place : String) (draft : ElementDraft) :
    (draft.program place).alone = draft.build place := by
  unfold ElementDraft.program ElementDraft.build
  cases draft.names with
  | nil => rfl
  | cons name names =>
    dsimp only
    rw [Program.alone_bind, RuleDraft.alone_mapM_program]
    rfl

/-- Items that each lead to registrations do so one after the other. -/
theorem CatalogEntry.alone_mapM_flatMap {α β : Type} {entries : α → List CatalogEntry}
    {step : α → Construction LoadError β} {logOf : β → List Registration}
    (h : ∀ item, ((entries item).mapM CatalogEntry.program).alone = logOf <$> step item)
    (items : List α) :
    ((items.flatMap entries).mapM CatalogEntry.program).alone =
      (·.flatMap logOf) <$> items.mapM step := by
  induction items with
  | nil => rfl
  | cons item items ih =>
    rw [List.flatMap_cons, List.mapM_append, List.mapM_cons]
    simp only [Program.alone_bind, Program.alone_pure, h, ih, bind_map_left, map_bind, map_pure,
      List.flatMap_cons]

/-- The rules at a place, each of which leads to one registration. -/
theorem RuleDraft.alone_mapM_entries {place : String} (entry : RuleDraft → CatalogEntry)
    (registration : Rule → Registration)
    (hentry : ∀ draft, (entry draft).program = registration <$> draft.program place)
    (drafts : List RuleDraft) :
    ((drafts.map entry).mapM CatalogEntry.program).alone =
      (fun rules => rules.map registration) <$> RuleDraft.buildAll place drafts := by
  simp only [List.map_eq_flatMap]
  refine CatalogEntry.alone_mapM_flatMap (fun draft => ?_) drafts
  simp [hentry, Program.alone_map, alone_program]

/-- The elements of a section, each of which leads to one registration. -/
theorem ElementDraft.alone_mapM_entries {place : String} (entry : ElementDraft → CatalogEntry)
    (registration : List String × ElementType → Registration)
    (hentry : ∀ draft, (entry draft).program =
      (fun element => registration (draft.resources, element)) <$> draft.program place)
    (drafts : List ElementDraft) :
    ((drafts.map entry).mapM CatalogEntry.program).alone =
      (fun elements => elements.map registration) <$> ElementDraft.buildAll place drafts := by
  simp only [List.map_eq_flatMap]
  refine CatalogEntry.alone_mapM_flatMap (fun draft => ?_) drafts
  simp [hentry, Program.alone_map, alone_program]

theorem ResourceDraft.alone_mapM_entries (drafts : List ResourceDraft) :
    ((drafts.flatMap fun draft => draft.deprecations.map (.resourceRule draft.resource)).mapM
      CatalogEntry.program).alone =
      (fun rules => rules.flatten.map fun (name, rule) => .resourceRule name rule) <$>
        drafts.mapM ResourceDraft.build := by
  simp only [List.map_flatten, ← List.flatMap_def]
  refine CatalogEntry.alone_mapM_flatMap (fun draft => ?_) drafts
  rw [RuleDraft.alone_mapM_entries (.resourceRule draft.resource) (.resourceRule draft.resource)
    (fun _ => rfl), ResourceDraft.build]
  rw [map_eq_pure_bind, map_bind]
  simp only [map_pure, List.map_map]
  rfl

theorem CatalogDraft.alone_program (draft : CatalogDraft) :
    draft.program.alone = draft.build := by
  have hpolicy := RuleDraft.alone_mapM_entries .policyRule .policyRule (fun _ => rfl) draft.policy
  have hconditions :=
    RuleDraft.alone_mapM_entries .conditionRule .conditionRule (fun _ => rfl) draft.conditions
  have hmodes := ElementDraft.alone_mapM_entries .mode (fun mode => .mode mode.2)
    (fun _ => rfl) draft.modes
  have hresources := ResourceDraft.alone_mapM_entries draft.resources
  have hfilters := ElementDraft.alone_mapM_entries .filter
    (fun filter => .filter filter.1 filter.2) (fun _ => rfl) draft.filters
  have hactions := ElementDraft.alone_mapM_entries .action
    (fun action => .action action.1 action.2) (fun _ => rfl) draft.actions
  -- The catalog starts out with the first two sections and takes up the others one by one.
  have hrules : ∀ policyRules conditionRules : List Rule,
      (conditionRules.map .conditionRule).foldl Registration.applyTo
        ((policyRules.map .policyRule).foldl Registration.applyTo ∅) =
      { policyRules, conditionRules } := by
    intro policyRules conditionRules
    rw [← List.foldl_append, Registration.foldl_rules]
  rw [program, Program.alone_bind, entries]
  simp only [List.mapM_append, Program.alone_bind, Program.alone_pure, hpolicy, hconditions,
    hmodes, hresources, hfilters, hactions, bind_map_left, bind_assoc, pure_bind,
    List.foldl_append, hrules]
  simp only [List.foldl_map]
  rfl

theorem Catalog.alone_program (text : String) : (Catalog.program text).alone = ofText text := by
  unfold Catalog.program ofText
  split
  · rfl
  · generalize (Yaml.Tree.ofText? _ text).bind _ = draft?
    cases draft? with
    | some draft => exact draft.alone_program
    | none => rfl

/-! ## What is kept -/

/-- All rules that a catalog ever took up have a property. -/
def Catalog.Holds (P : Rule → Prop) (catalog : Catalog) : Prop :=
  ∃ log, catalog.Records log ∧
    ∀ registration ∈ log, ∀ listed ∈ registration.listed, P listed.rule

section

variable {P : Rule → Prop}

theorem RuleDraft.keeps_program (place : String) (draft : RuleDraft) :
    (draft.program place).Keeps P P :=
  (Request.keeps_program _).mapError _

theorem ElementDraft.keeps_program (place : String) (draft : ElementDraft) :
    (draft.program place).Keeps P fun element => ∀ rule ∈ element.rules, P rule := by
  unfold ElementDraft.program
  cases draft.names with
  | nil => exact .error _
  | cons name names =>
    exact (Program.Keeps.mapM (RuleDraft.keeps_program _) _).bind fun rules hrules => .pure hrules

theorem CatalogEntry.keeps_program (entry : CatalogEntry) :
    entry.program.Keeps P fun registration =>
      ∀ listed ∈ registration.listed, P listed.rule := by
  have hrule : ∀ {place : Section} {element : String} {rule : Rule}, P rule →
      ∀ listed ∈ [ListedRule.mk place element rule], P listed.rule := by
    rintro place element rule hrule listed hlisted
    rwa [List.mem_singleton.1 hlisted]
  have helement : ∀ {place : Section} {element : ElementType}, (∀ rule ∈ element.rules, P rule) →
      ∀ listed ∈ ListedRule.ofRules place element.name element.rules, P listed.rule := by
    rintro place element hrules listed hlisted
    obtain ⟨rule, hmem, rfl⟩ := ListedRule.mem_ofRules.1 hlisted
    exact hrules rule hmem
  cases entry with
  | policyRule draft => exact (draft.keeps_program _).map fun _ => hrule
  | conditionRule draft => exact (draft.keeps_program _).map fun _ => hrule
  | resourceRule resource draft => exact (draft.keeps_program _).map fun _ => hrule
  | mode draft => exact (draft.keeps_program _).map fun _ => helement
  | filter draft => exact (draft.keeps_program _).map fun _ => helement
  | action draft => exact (draft.keeps_program _).map fun _ => helement

theorem CatalogDraft.keeps_program (draft : CatalogDraft) :
    draft.program.Keeps P (Catalog.Holds P) :=
  (Program.Keeps.mapM CatalogEntry.keeps_program draft.entries).bind fun log hlog =>
    .pure ⟨log, Catalog.records_empty.foldl log, hlog⟩

theorem Catalog.keeps_program (text : String) :
    (Catalog.program text).Keeps P (Catalog.Holds P) := by
  unfold Catalog.program
  split
  · exact .pure ⟨[], records_empty, nofun⟩
  · split
    · exact CatalogDraft.keeps_program _
    · exact .error _

end

end PolicyLint
