import PolicyLint.Proofs.Catalog.Growth

/-!
# Look-ups in extended catalogs

What the look-ups of a catalog say after another catalog is put behind it : lists of rules are
joined, and an element that the other catalog has under a name comes first. Filters and actions
of a resource type are two parts of it that grow alike (`Grows`), so each statement about them
is made once, for any such part.
-/

namespace PolicyLint

/-- A part of resource types in which the later of two elements with a name counts. -/
structure Grows (part : ResourceType → NameMap ElementType) : Prop where
  get?_extend : ∀ resource other name, (part (resource.extend other)).get? name =
    ((part other).get? name).or ((part resource).get? name)

theorem grows_filters : Grows ResourceType.filters :=
  ⟨fun _ _ _ => NameMap.get?_union _ _ _⟩

theorem grows_actions : Grows ResourceType.actions :=
  ⟨fun _ _ _ => NameMap.get?_union _ _ _⟩

namespace NameMap

/-- The element with a name in a part of a resource type. -/
def element? (resources : NameMap ResourceType) (part : ResourceType → NameMap ElementType)
    (resource name : String) : Option ElementType :=
  (resources.get? resource).bind fun r => (part r).get? name

/-- The rules of a resource type. -/
def rulesOf (resources : NameMap ResourceType) (resource : String) : List Rule :=
  ((resources.get? resource).map ResourceType.rules).getD []

variable {part : ResourceType → NameMap ElementType}

theorem element?_mergeWith (hpart : Grows part) (resources other : NameMap ResourceType)
    (resource name : String) :
    (resources.mergeWith ResourceType.extend other).element? part resource name =
      (other.element? part resource name).or (resources.element? part resource name) := by
  unfold element?
  rw [get?_mergeWith]
  cases other.get? resource with
  | none => rfl
  | some new =>
    cases resources.get? resource with
    | none => exact (Option.or_none).symm
    | some old => exact hpart.get?_extend old new name

theorem rulesOf_mergeWith (resources other : NameMap ResourceType) (resource : String) :
    (resources.mergeWith ResourceType.extend other).rulesOf resource =
      resources.rulesOf resource ++ other.rulesOf resource := by
  unfold rulesOf
  rw [get?_mergeWith]
  cases other.get? resource with
  | none => exact (List.append_nil _).symm
  | some new => cases resources.get? resource <;> rfl

end NameMap

namespace Catalog

/-! ## Resource types that are the same of several names -/

theorem ite_or_ite {α : Type} (p q : Prop) [Decidable p] [Decidable q] (x : Option α) :
    (if p then x else none).or (if q then x else none) = if p ∨ q then x else none := by
  by_cases hp : p <;> by_cases hq : q <;> cases x <;> simp [hp, hq]

/-- To add one resource type is to put a map behind that has nothing else. -/
theorem get?_insertWith_extend (resources : NameMap ResourceType) (name : String)
    (r : ResourceType) (resource : String) :
    (resources.insertWith ResourceType.extend name r).get? resource =
      if resource = name then some (((resources.get? name).map (·.extend r)).getD r)
      else resources.get? resource := by
  rw [NameMap.get?_insertWith]
  cases resources.get? name <;> rfl

theorem element?_resourcesAs {part : ResourceType → NameMap ElementType} (hpart : Grows part)
    (names : List String) (r : ResourceType) (resource name : String) :
    (resourcesAs names r).element? part resource name =
      if resource ∈ names.map ResourceName.normalize then (part r).get? name else none := by
  have hfold : ∀ m : NameMap ResourceType,
      (names.foldl (fun m name => m.insertWith ResourceType.extend
        (ResourceName.normalize name) r) m).element? part resource name =
        (if resource ∈ names.map ResourceName.normalize then (part r).get? name else none).or
          (m.element? part resource name) := by
    induction names with
    | nil => exact fun m => rfl
    | cons head names ih =>
      intro m
      have hinsert : (m.insertWith ResourceType.extend (ResourceName.normalize head) r).element?
          part resource name = (if resource = ResourceName.normalize head
            then (part r).get? name else none).or (m.element? part resource name) := by
        unfold NameMap.element?
        rw [get?_insertWith_extend]
        split
        · rename_i heq
          rw [← heq]
          cases m.get? resource with
          | none => exact (Option.or_none).symm
          | some old => exact hpart.get?_extend old r name
        · rfl
      rw [List.foldl_cons, ih, hinsert, ← Option.or_assoc, ite_or_ite]
      simp only [List.map_cons, List.mem_cons, or_comm]
  rw [resourcesAs, hfold]
  exact Option.or_none

theorem rulesOf_resourcesAs (names : List String) (r : ResourceType) (resource : String) :
    (resourcesAs names r).rulesOf resource =
      names.flatMap fun name => if ResourceName.normalize name = resource then r.rules else [] := by
  have hfold : ∀ m : NameMap ResourceType,
      (names.foldl (fun m name => m.insertWith ResourceType.extend
        (ResourceName.normalize name) r) m).rulesOf resource =
        m.rulesOf resource ++ names.flatMap fun name =>
          if ResourceName.normalize name = resource then r.rules else [] := by
    induction names with
    | nil => exact fun m => (List.append_nil _).symm
    | cons head names ih =>
      intro m
      have hinsert : (m.insertWith ResourceType.extend (ResourceName.normalize head) r).rulesOf
          resource = m.rulesOf resource ++
            if ResourceName.normalize head = resource then r.rules else [] := by
        unfold NameMap.rulesOf
        rw [get?_insertWith_extend]
        by_cases hhead : resource = ResourceName.normalize head
        · rw [if_pos hhead, if_pos hhead.symm, ← hhead]
          cases m.get? resource <;> rfl
        · rw [if_neg hhead, if_neg (Ne.symm hhead), List.append_nil]
      rw [List.foldl_cons, ih, hinsert, List.flatMap_cons, List.append_assoc]
  rw [resourcesAs, hfold]
  rfl

/-! ## Look-ups -/

variable (catalog : Catalog)

theorem filter?_eq (resource name : String) : catalog.filter? resource name =
    (catalog.resources.element? ResourceType.filters resource name).or
      (catalog.commonFilters.get? name) := by
  unfold filter? NameMap.element?
  exact Option.orElse_eq_or

theorem action?_eq (resource name : String) : catalog.action? resource name =
    (catalog.resources.element? ResourceType.actions resource name).or
      (catalog.commonActions.get? name) := by
  unfold action? NameMap.element?
  exact Option.orElse_eq_or

/-! ## Look-ups behind another catalog -/

variable {catalog other : Catalog} {resource name : String}

theorem resourceRules_extend (catalog other : Catalog) (resource : String) :
    (catalog.extend other).resourceRules resource =
      catalog.resourceRules resource ++ other.resourceRules resource :=
  NameMap.rulesOf_mergeWith catalog.resources other.resources resource

theorem mode?_extend_of_eq_none (h : other.mode? name = none) :
    (catalog.extend other).mode? name = catalog.mode? name := by
  show (catalog.modes ∪ other.modes).get? name = catalog.modes.get? name
  rw [NameMap.get?_union, show other.modes.get? name = none from h, Option.none_or]

/-- An element that is not found in a part or in what all resource types have in common does not
come before any that is. -/
theorem element?_or_extend {part : ResourceType → NameMap ElementType} (hpart : Grows part)
    (resources other : NameMap ResourceType) (common common' : NameMap ElementType)
    (h : (other.element? part resource name).or (common'.get? name) = none) :
    ((resources.mergeWith ResourceType.extend other).element? part resource name).or
      ((common ∪ common').get? name) =
        (resources.element? part resource name).or (common.get? name) := by
  obtain ⟨helement, hcommon⟩ := Option.or_eq_none_iff.1 h
  rw [NameMap.element?_mergeWith hpart, NameMap.get?_union, helement, hcommon, Option.none_or,
    Option.none_or]

theorem filter?_extend_of_eq_none (h : other.filter? resource name = none) :
    (catalog.extend other).filter? resource name = catalog.filter? resource name := by
  rw [filter?_eq] at h ⊢
  rw [filter?_eq]
  exact element?_or_extend grows_filters _ _ _ _ h

theorem action?_extend_of_eq_none (h : other.action? resource name = none) :
    (catalog.extend other).action? resource name = catalog.action? resource name := by
  rw [action?_eq] at h ⊢
  rw [action?_eq]
  exact element?_or_extend grows_actions _ _ _ _ h

end Catalog

end PolicyLint
