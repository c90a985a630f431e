import PolicyLint.Proofs.Catalog.Growth

/-!
# Chains of catalogs

Catalogs may be put behind each other one by one, or in groups that are put together first
(`Chain`). A group may be empty.

Extension joins the lists of rules, lets the later of two elements with a name count, and does
both for every resource type, so that it is associative as each of these is
(`Catalog.extend_assoc`), and the empty catalog is neutral.

Main statement : these laws, and that the catalog of a chain depends on the catalogs in it and
their order alone (`Chain.catalog_eq_foldl`). So do its look-ups, its listing and the reports.
-/

namespace PolicyLint

/-! ## Extension as an operation -/

namespace Catalog

variable (catalog : Catalog)

theorem extend_assoc (other more : Catalog) :
    (catalog.extend other).extend more = catalog.extend (other.extend more) := by
  unfold extend
  rw [List.append_assoc, List.append_assoc, NameMap.union_assoc, NameMap.union_assoc,
    NameMap.union_assoc, NameMap.mergeWith_assoc ResourceType.extend_assoc]

theorem extend_empty : catalog.extend ∅ = catalog := by
  change Catalog.mk (catalog.policyRules ++ []) (catalog.conditionRules ++ []) (catalog.modes ∪ ∅)
    (catalog.resources.mergeWith ResourceType.extend ∅) (catalog.commonFilters ∪ ∅)
    (catalog.commonActions ∪ ∅) = catalog
  rw [List.append_nil, List.append_nil]
  simp only [NameMap.union_empty, NameMap.mergeWith_empty]

theorem empty_extend : (∅ : Catalog).extend catalog = catalog := by
  change Catalog.mk ([] ++ catalog.policyRules) ([] ++ catalog.conditionRules) (∅ ∪ catalog.modes)
    ((∅ : NameMap ResourceType).mergeWith ResourceType.extend catalog.resources)
    (∅ ∪ catalog.commonFilters) (∅ ∪ catalog.commonActions) = catalog
  simp only [List.nil_append, NameMap.empty_union, NameMap.empty_mergeWith]

instance : Std.Associative extend :=
  ⟨extend_assoc⟩

/-- Catalogs behind a first one may as well be put together before. -/
theorem foldl_extend (catalogs : List Catalog) :
    catalogs.foldl extend catalog = catalog.extend (catalogs.foldl extend ∅) := by
  have h : catalogs.foldl extend (catalog.extend ∅) = catalog.extend (catalogs.foldl extend ∅) :=
    List.foldl_assoc
  rwa [extend_empty] at h

end Catalog

/-! ## Chains -/

/-- Catalogs that are put behind each other, in groups. -/
inductive Chain
  | empty
  | single (catalog : Catalog)
  | extend (chain other : Chain)

namespace Chain

/-- The catalogs of a chain, in order. -/
def catalogs : Chain → List Catalog
  | empty => []
  | single catalog => [catalog]
  | extend chain other => chain.catalogs ++ other.catalogs

/-- The catalog that a chain makes, group by group. -/
def catalog : Chain → Catalog
  | empty => ∅
  | single catalog => catalog
  | extend chain other => chain.catalog.extend other.catalog

/-- Extension is associative, the empty catalog is neutral on both sides, and a chain in any
grouping makes the catalog that comes of extending by one of its catalogs after the other. -/
theorem catalog_eq_foldl :
    (∀ a b c : Catalog, a.extend (b.extend c) = (a.extend b).extend c) ∧
    (∀ catalog : Catalog, (∅ : Catalog).extend catalog = catalog ∧
      catalog.extend ∅ = catalog) ∧
    ∀ chain : Chain, chain.catalog = chain.catalogs.foldl Catalog.extend ∅ := by
  refine ⟨fun a b c => (a.extend_assoc b c).symm,
    fun catalog => ⟨catalog.empty_extend, catalog.extend_empty⟩, fun chain => ?_⟩
  induction chain with
  | empty => rfl
  | single catalog => exact catalog.empty_extend.symm
  | extend chain other ih ih' =>
    rw [catalogs, List.foldl_append, Catalog.foldl_extend, ← ih, ← ih']
    rfl

end Chain

end PolicyLint
