import Mathlib.Logic.Equiv.Basic
import PolicyLint.Policy.Ruled
import PolicyLint.Proofs.Catalog.Log

/-!
# Rules with other numbers

To renumber rules by a function on numbers is to change nothing else of them. It goes through
everything that holds rules : the catalogs and what they are made of, the listing of a catalog,
and reports. `Catalog.SameUpTo σ catalog other` says that `other` is a catalog with its rules
renumbered by `σ`, and so are its look-ups, its listing and the reports that it leads to.

Main statement : if `σ` never gives two numbers the same new one, all of this follows from what
the catalogs are made of (`Catalog.sameUpTo_renumber`).
-/

namespace PolicyLint

/-! ## Renumbering -/

section

variable (σ : Nat → Nat)

/-- The rule with another number. -/
def Rule.renumber (rule : Rule) : Rule :=
  { rule with id := σ rule.id }

/-- The element with its rules renumbered. -/
def ElementType.renumber (element : ElementType) : ElementType where
  names := element.names
  rules := element.rules.map (Rule.renumber σ)

/-- The resource type with its rules and those of its elements renumbered. -/
def ResourceType.renumber (resource : ResourceType) : ResourceType where
  rules := resource.rules.map (Rule.renumber σ)
  filters := resource.filters.map (ElementType.renumber σ)
  actions := resource.actions.map (ElementType.renumber σ)

/-- The catalog with all rules renumbered. -/
def Catalog.renumber (catalog : Catalog) : Catalog where
  policyRules := catalog.policyRules.map (Rule.renumber σ)
  conditionRules := catalog.conditionRules.map (Rule.renumber σ)
  modes := catalog.modes.map (ElementType.renumber σ)
  resources := catalog.resources.map (ResourceType.renumber σ)
  commonFilters := catalog.commonFilters.map (ElementType.renumber σ)
  commonActions := catalog.commonActions.map (ElementType.renumber σ)

/-- The registration with its rules renumbered. -/
def Registration.renumber : Registration → Registration
  | policyRule rule => policyRule (rule.renumber σ)
  | conditionRule rule => conditionRule (rule.renumber σ)
  | resourceRule resource rule => resourceRule resource (rule.renumber σ)
  | mode element => mode (element.renumber σ)
  | filter resources element => filter resources (element.renumber σ)
  | action resources element => action resources (element.renumber σ)

/-- The listed rule with another number. -/
def ListedRule.renumber (listed : ListedRule) : ListedRule :=
  { listed with rule := listed.rule.renumber σ }

/-- The finding with its rule renumbered. -/
def Finding.renumber (finding : Finding) : Finding :=
  { finding with rule := finding.rule.renumber σ }

/-- The report with the rules of its findings renumbered. -/
def Report.renumber (report : Report) : Report where
  policyName := report.policyName
  policyFields := report.policyFields.map (Finding.renumber σ)
  conditions := report.conditions.map (Finding.renumber σ)
  mode := report.mode.map (Finding.renumber σ)
  resource := report.resource.map (Finding.renumber σ)
  filters := report.filters.map (Finding.renumber σ)
  actions := report.actions.map (Finding.renumber σ)

end

/-- The second catalog is the first with its rules renumbered, and shows as such wherever a
catalog is used. -/
structure Catalog.SameUpTo (σ : Nat → Nat) (catalog other : Catalog) : Prop where
  eq_renumber : other = catalog.renumber σ
  policyRules : other.policyRules = catalog.policyRules.map (Rule.renumber σ)
  conditionRules : other.conditionRules = catalog.conditionRules.map (Rule.renumber σ)
  resourceRules : ∀ resource, other.resourceRules resource =
    (catalog.resourceRules resource).map (Rule.renumber σ)
  mode? : ∀ name, other.mode? name = (catalog.mode? name).map (ElementType.renumber σ)
  filter? : ∀ resource name, other.filter? resource name =
    (catalog.filter? resource name).map (ElementType.renumber σ)
  action? : ∀ resource name, other.action? resource name =
    (catalog.action? resource name).map (ElementType.renumber σ)
  rules : other.rules = catalog.rules.map (ListedRule.renumber σ)
  report : ∀ policy : Policy, (policy.withRules other).report =
    (policy.withRules catalog).report.renumber σ

variable {σ : Nat → Nat}

/-! ## Catalogs that are made from others -/

theorem ElementType.byName_renumber (element : ElementType) :
    element.byName.map (ElementType.renumber σ) = (element.renumber σ).byName :=
  NameMap.map_ofNames _ _ _

theorem ResourceType.renumber_extend (resource other : ResourceType) :
    (resource.extend other).renumber σ = (resource.renumber σ).extend (other.renumber σ) := by
  simp [extend, renumber, NameMap.map_union]

namespace Catalog

theorem renumber_extend (catalog other : Catalog) :
    (catalog.extend other).renumber σ = (catalog.renumber σ).extend (other.renumber σ) := by
  simp [extend, renumber, NameMap.map_union,
    NameMap.map_mergeWith _ ResourceType.renumber_extend]

theorem map_resourcesAs (names : List String) (resource : ResourceType) :
    (resourcesAs names resource).map (ResourceType.renumber σ) =
      resourcesAs names (resource.renumber σ) := by
  have hfold : ∀ m : NameMap ResourceType,
      (names.foldl (fun m name => m.insertWith ResourceType.extend
        (ResourceName.normalize name) resource) m).map (ResourceType.renumber σ) =
      names.foldl (fun m name => m.insertWith ResourceType.extend
        (ResourceName.normalize name) (resource.renumber σ)) (m.map (ResourceType.renumber σ)) := by
    induction names with
    | nil => exact fun m => rfl
    | cons name names ih =>
      intro m
      rw [List.foldl_cons, List.foldl_cons, ih,
        NameMap.map_insertWith _ ResourceType.renumber_extend]
  exact hfold ∅

end Catalog

theorem Registration.renumber_alone (registration : Registration) :
    registration.alone.renumber σ = (registration.renumber σ).alone := by
  cases registration with
  | policyRule | conditionRule => rfl
  | resourceRule resource rule =>
    simp [alone, renumber, Catalog.renumber, Catalog.map_resourcesAs, ResourceType.renumber]
  | mode element => simp [alone, renumber, Catalog.renumber, ElementType.byName_renumber]
  | filter resources element =>
    simp only [alone, renumber, Catalog.ofFilter]
    split <;> simp [Catalog.renumber, Catalog.map_resourcesAs, ResourceType.renumber,
      ElementType.byName_renumber]
  | action resources element =>
    simp only [alone, renumber, Catalog.ofAction]
    split <;> simp [Catalog.renumber, Catalog.map_resourcesAs, ResourceType.renumber,
      ElementType.byName_renumber]

/-- The catalog of renumbered registrations is renumbered. -/
theorem Registration.foldl_map_renumber (log : List Registration) (catalog : Catalog) :
    (log.map (renumber σ)).foldl applyTo (catalog.renumber σ) =
      (log.foldl applyTo catalog).renumber σ := by
  induction log generalizing catalog with
  | nil => rfl
  | cons registration log ih =>
    rw [List.map_cons, List.foldl_cons, List.foldl_cons, ← ih, applyTo_eq_extend,
      applyTo_eq_extend, Catalog.renumber_extend, renumber_alone]

/-! ## Look-ups, listing and reports -/

namespace Catalog

variable (catalog : Catalog)

theorem resourceRules_renumber (resource : String) :
    (catalog.renumber σ).resourceRules resource =
      (catalog.resourceRules resource).map (Rule.renumber σ) := by
  simp only [resourceRules, renumber, NameMap.get?_map]
  cases catalog.resources.get? resource <;> rfl

theorem filter?_renumber (resource name : String) :
    (catalog.renumber σ).filter? resource name =
      (catalog.filter? resource name).map (ElementType.renumber σ) := by
  simp only [filter?_eq, NameMap.element?, renumber, NameMap.get?_map, Option.map_or]
  cases catalog.resources.get? resource with
  | none => rfl
  | some r => simp [ResourceType.renumber]

theorem action?_renumber (resource name : String) :
    (catalog.renumber σ).action? resource name =
      (catalog.action? resource name).map (ElementType.renumber σ) := by
  simp only [action?_eq, NameMap.element?, renumber, NameMap.get?_map, Option.map_or]
  cases catalog.resources.get? resource with
  | none => rfl
  | some r => simp [ResourceType.renumber]

end Catalog

namespace ListedRule

theorem ofRules_renumber (place : Section) (element : String) (rules : List Rule) :
    ofRules place element (rules.map (Rule.renumber σ)) =
      (ofRules place element rules).map (renumber σ) := by
  simp [ofRules, renumber]

theorem ofElements_renumber (place : Section) (elements : List ElementType) :
    ofElements place (elements.map (ElementType.renumber σ)) =
      (ofElements place elements).map (renumber σ) := by
  simp only [ofElements, List.flatMap_map, List.map_flatMap, ← ofRules_renumber]
  rfl

/-- Rules with the same number stay such, and others do not become such. -/
theorem distinct_renumber (hσ : Function.Injective σ) (rules : List ListedRule) :
    distinct (rules.map (renumber σ)) = (distinct rules).map (renumber σ) := by
  induction rules with
  | nil => rfl
  | cons listed rest ih =>
    have hid : ∀ other : ListedRule,
        ((other.renumber σ).rule.id != (listed.renumber σ).rule.id) =
          (other.rule.id != listed.rule.id) := fun other => by
      simp [renumber, Rule.renumber, bne, hσ.eq_iff]
    rw [List.map_cons, distinct, distinct, ih, List.map_cons, List.filter_map]
    simp only [Function.comp_def, hid]

end ListedRule

theorem Catalog.declaredRules_renumber (catalog : Catalog) :
    (catalog.renumber σ).declaredRules =
      catalog.declaredRules.map (ListedRule.renumber σ) := by
  have hresources : (catalog.resources.map (ResourceType.renumber σ)).entries.flatMap
      (fun entry => ListedRule.ofRules .resource entry.1 entry.2.rules) =
      (catalog.resources.entries.flatMap
        fun entry => ListedRule.ofRules .resource entry.1 entry.2.rules).map
          (ListedRule.renumber σ) := by
    simp only [NameMap.map, List.flatMap_map, List.map_flatMap, ← ListedRule.ofRules_renumber]
    rfl
  have helements : ∀ part : ResourceType → NameMap ElementType,
      (∀ r, part (r.renumber σ) = (part r).map (ElementType.renumber σ)) →
      (catalog.resources.map (ResourceType.renumber σ)).values.flatMap
        (fun r => (part r).values) =
      (catalog.resources.values.flatMap fun r => (part r).values).map
        (ElementType.renumber σ) := by
    intro part hpart
    simp only [NameMap.values_map, List.flatMap_map, List.map_flatMap, hpart]
  simp only [declaredRules, List.map_append, ← ListedRule.ofRules_renumber,
    ← ListedRule.ofElements_renumber, ← hresources, ← NameMap.values_map,
    ← helements ResourceType.filters fun _ => rfl, ← helements ResourceType.actions fun _ => rfl]
  rfl

/-- What is found does not depend on the numbers of the rules. -/
theorem Subject.findings_renumber (rules : List Rule) (data : Option Mapping)
    (label : Option String) :
    Subject.findings ⟨rules.map (Rule.renumber σ), data, label⟩ =
      (Subject.findings ⟨rules, data, label⟩).map (Finding.renumber σ) := by
  simp only [Subject.findings, Subject.check, List.filter_map, List.map_map]
  rfl

theorem RuledElement.findings_renumber (label : Option String) (element : PolicyElement)
    (type : Option ElementType) :
    (ofType label element (type.map (ElementType.renumber σ))).subject.findings =
      (ofType label element type).subject.findings.map (Finding.renumber σ) := by
  cases type with
  | none => rfl
  | some type => exact Subject.findings_renumber _ _ _

theorem Catalog.report_renumber (catalog : Catalog) (policy : Policy) :
    (policy.withRules (catalog.renumber σ)).report =
      (policy.withRules catalog).report.renumber σ := by
  have helements : ∀ (elements : List PolicyElement) (type : String → Option ElementType),
      ((elements.map fun element => RuledElement.labelled element
        ((type element.typeName).map (ElementType.renumber σ))).map RuledElement.subject).flatMap
          Subject.findings =
      (((elements.map fun element => RuledElement.labelled element
        (type element.typeName)).map RuledElement.subject).flatMap Subject.findings).map
          (Finding.renumber σ) := by
    intro elements type
    simp only [List.flatMap_map, List.map_flatMap, RuledElement.labelled,
      RuledElement.findings_renumber]
  have hmode : ∀ name, (catalog.renumber σ).mode? name =
      (catalog.mode? name).map (ElementType.renumber σ) := NameMap.get?_map _ _
  simp only [RuledPolicy.report, RuledPolicy.subject, PolicySubject.report, Policy.withRules,
    Report.renumber, RuledPolicy.whole, Option.map_some, Option.getD_some,
    Catalog.resourceRules_renumber, Catalog.filter?_renumber, Catalog.action?_renumber, hmode,
    Subject.findings_renumber, RuledElement.findings_renumber, helements]
  simp only [Catalog.renumber, Subject.findings_renumber]

/-- A catalog whose rules are renumbered one by one is the same in all its uses. -/
theorem Catalog.sameUpTo_renumber (hσ : Function.Injective σ) (catalog : Catalog) :
    SameUpTo σ catalog (catalog.renumber σ) where
  eq_renumber := rfl
  policyRules := rfl
  conditionRules := rfl
  resourceRules := catalog.resourceRules_renumber
  mode? := NameMap.get?_map _ _
  filter? := catalog.filter?_renumber
  action? := catalog.action?_renumber
  rules := by
    rw [Catalog.rules, declaredRules_renumber, ListedRule.distinct_renumber hσ]
    rfl
  report := catalog.report_renumber

/-! ## Numbers and their new ones -/

/-- Distinct numbers can be given other distinct numbers, in order. -/
theorem exists_perm_map_eq {ids ids' : List Nat} (hids : ids.Nodup) (hids' : ids'.Nodup)
    (hlength : ids.length = ids'.length) : ∃ σ : Equiv.Perm Nat, ids.map σ = ids' := by
  induction ids generalizing ids' with
  | nil => exact ⟨.refl Nat, (List.eq_nil_of_length_eq_zero hlength.symm).symm⟩
  | cons id ids ih =>
    obtain ⟨id', ids', rfl⟩ := List.exists_cons_of_length_eq_add_one hlength.symm
    rw [List.nodup_cons] at hids hids'
    obtain ⟨σ, hσ⟩ := ih hids.2 hids'.2 (Nat.succ.inj hlength)
    -- The new number of `id` is swapped for `id'`, which is not in use behind it.
    refine ⟨σ.trans (Equiv.swap (σ id) id'), ?_⟩
    have htail : ids.map (σ.trans (Equiv.swap (σ id) id')) = ids.map σ := by
      refine List.map_congr_left fun other hother => ?_
      refine Equiv.swap_apply_of_ne_of_ne (fun h => hids.1 ?_) (fun h => hids'.1 ?_)
      · exact σ.injective h ▸ hother
      · exact hσ ▸ List.mem_map.2 ⟨other, hother, h⟩
    rw [List.map_cons, htail, hσ]
    simp

end PolicyLint
