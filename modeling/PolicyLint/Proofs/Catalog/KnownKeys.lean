import PolicyLint.Catalog.Text
import PolicyLint.Proofs.Yaml.Blank
import PolicyLint.Proofs.Yaml.Record

/-!
# The keys of catalogs

A document holds the mappings of a catalog at four levels : the catalog itself, its entries for
resource types, its entries for modes, filters and actions, and rules (`CatalogLevel`). Where a
mapping stands decides its level (`StandsAt`), and its level decides which keys it may have; of a
rule also its kind does (`CatalogLevel.Knows`).

What is read at a level reads every item of the lists in it at their level
(`CatalogLevel.Reads.item`), so a catalog that is read has known keys only, wherever they stand
(`StandsAt.reads`, `CatalogLevel.Reads.knows`).

Main statement : a catalog with an unknown key anywhere is malformed, and nothing is constructed
of it (`Catalog.run_ofText_of_hasUnknownKey`).
-/

namespace PolicyLint

open Yaml (Scalar Tree Tag)

/-! ## Levels -/

/-- Where a mapping may stand in a catalog. -/
inductive CatalogLevel
  | catalog
  | resource
  | element
  | rule
deriving DecidableEq, Repr

namespace CatalogLevel

/-- The keys of the mappings at a level. Those of a rule depend on its kind. -/
def keys : CatalogLevel → List String
  | catalog => ["policy", "conditions", "modes", "resources", "filters", "actions"]
  | resource => ["resource", "deprecations"]
  | element => ["names", "resources", "deprecations"]
  | rule => ["kind"]

/-- The level of what is listed under a key. -/
def listed? (level : CatalogLevel) (name : String) : Option CatalogLevel :=
  match level with
  | catalog =>
    match name with
    | "policy" => some rule
    | "conditions" => some rule
    | "modes" => some element
    | "resources" => some resource
    | "filters" => some element
    | "actions" => some element
    | _ => none
  | resource => if name = "deprecations" then some rule else none
  | element => if name = "deprecations" then some rule else none
  | rule => none

/-- The fields that a rule may have : those of the kind that stands in it. -/
inductive HasFields (entries : List (Scalar × Tree)) : List String → Prop
  | intro {key : Scalar} {value : Tree} {kind : String} {names : List String}
    (hentry : (key, value) ∈ entries) (hkey : key.text = "kind") (hkind : value.text? = some kind)
    (hnames : RuleDraft.fieldNames? kind = some names) : HasFields entries names

/-- A key is known in a mapping at a level. In a rule it may be a field by its name or by its
position, counted from 0. -/
inductive Knows (entries : List (Scalar × Tree)) : CatalogLevel → Scalar → Prop
  | key {level : CatalogLevel} {key : Scalar} (h : key.text ∈ level.keys) : Knows entries level key
  | field {key : Scalar} {names : List String} (hfields : HasFields entries names)
    (h : key.text ∈ names) : Knows entries rule key
  | position {key : Scalar} {names : List String} {n : Nat} (hfields : HasFields entries names)
    (h : key.atom? = some (.whole ⟨false, n⟩)) (hn : n < names.length) : Knows entries rule key

/-- A tree is read at a level. -/
def Reads : CatalogLevel → Tree → Prop
  | catalog, tree => ∃ draft, CatalogDraft.ofTree? tree = some draft
  | resource, tree => ∃ draft, ResourceDraft.ofTree? tree = some draft
  | element, tree => ∃ draft, ElementDraft.ofTree? tree = some draft
  | rule, tree => ∃ draft, RuleDraft.ofTree? tree = some draft

variable {level inner : CatalogLevel} {tree : Tree} {tag : Tag} {entries : List (Scalar × Tree)}

/-! ## Records -/

/-- A tree that is read at a level of records has fields with the keys of the level, and all
that is listed in them is read. -/
theorem Reads.exists_fields (h : level.Reads tree) (hlevel : level ≠ rule) :
    ∃ fields, tree.fields? level.keys = some fields ∧
      ∀ name inner, level.listed? name = some inner → ∀ tag items,
        (name, Tree.sequence tag items) ∈ fields → ∀ item ∈ items, inner.Reads item := by
  cases level with
  | rule => exact absurd rfl hlevel
  | catalog =>
    obtain ⟨draft, hdraft⟩ := h
    simp only [CatalogDraft.ofTree?, Option.bind_eq_bind, Option.bind_eq_some_iff] at hdraft
    obtain ⟨fields, hfields, policy, hpolicy, conditions, hconditions, modes, hmodes, resources,
      hresources, filters, hfilters, actions, hactions, -⟩ := hdraft
    have hnodup := Tree.nodup_of_fields? hfields
    refine ⟨fields, hfields, fun name inner hlisted tag items hlist item hitem => ?_⟩
    simp only [listed?] at hlisted
    split at hlisted <;> cases hlisted
    · exact Tree.exists_of_listField? hpolicy hnodup hlist hitem
    · exact Tree.exists_of_listField? hconditions hnodup hlist hitem
    · exact Tree.exists_of_listField? hmodes hnodup hlist hitem
    · exact Tree.exists_of_listField? hresources hnodup hlist hitem
    · exact Tree.exists_of_listField? hfilters hnodup hlist hitem
    · exact Tree.exists_of_listField? hactions hnodup hlist hitem
  | resource =>
    obtain ⟨draft, hdraft⟩ := h
    simp only [ResourceDraft.ofTree?, Option.bind_eq_bind, Option.bind_eq_some_iff] at hdraft
    obtain ⟨fields, hfields, resource, -, name, -, deprecations, hdeprecations, -⟩ := hdraft
    refine ⟨fields, hfields, fun name inner hlisted tag items hlist item hitem => ?_⟩
    simp only [listed?, Option.ite_none_right_eq_some] at hlisted
    obtain ⟨rfl, hinner⟩ := hlisted
    obtain rfl := Option.some.inj hinner
    exact Tree.exists_of_listField? hdeprecations (Tree.nodup_of_fields? hfields) hlist hitem
  | element =>
    obtain ⟨draft, hdraft⟩ := h
    simp only [ElementDraft.ofTree?, Option.bind_eq_bind, Option.bind_eq_some_iff] at hdraft
    obtain ⟨fields, hfields, hdraft⟩ := hdraft
    split at hdraft
    · cases hdraft
    simp only [Option.bind_eq_some_iff] at hdraft
    obtain ⟨names, -, resources, -, deprecations, hdeprecations, -⟩ := hdraft
    refine ⟨fields, hfields, fun name inner hlisted tag items hlist item hitem => ?_⟩
    simp only [listed?, Option.ite_none_right_eq_some] at hlisted
    obtain ⟨rfl, hinner⟩ := hlisted
    obtain rfl := Option.some.inj hinner
    exact Tree.exists_of_listField? hdeprecations (Tree.nodup_of_fields? hfields) hlist hitem

/-- What is read has every item of its lists read, at the level of the item. -/
theorem Reads.item (h : level.Reads (.mapping tag entries)) {key : Scalar} {listTag : Tag}
    {items : List Tree} (hentry : (key, .sequence listTag items) ∈ entries)
    (hlisted : level.listed? key.text = some inner) {item : Tree} (hitem : item ∈ items) :
    inner.Reads item := by
  have hlevel : level ≠ rule := by
    rintro rfl
    cases hlisted
  obtain ⟨fields, hfields, hlists⟩ := h.exists_fields hlevel
  obtain ⟨_, hentries, rfl, -⟩ := Tree.fields?_eq_some_iff.1 hfields
  obtain rfl := Option.some.inj hentries
  exact hlists _ _ hlisted listTag items (List.mem_map_of_mem hentry) item hitem

/-! ## Rules -/

theorem text_eq_of_string? {content : Scalar} {text : String}
    (h : RuleDraft.string? content = some text) : content.text = text := by
  unfold RuleDraft.string? at h
  split at h
  · rename_i atomText hatom
    rw [Scalar.text_eq_of_atom? hatom]
    exact Option.some.inj h
  · cases h

/-- A key that chooses a field is known by the name or by the position of the field. -/
theorem knows_of_choice? {names : List String} (hfields : HasFields entries names) {key : Scalar}
    {name : String} (h : RuleDraft.choice? names key = some name) : rule.Knows entries key := by
  unfold RuleDraft.choice? at h
  split at h
  · rename_i text htext
    split at h
    · rename_i hcontains
      refine .field hfields ?_
      rw [Scalar.text_eq_of_atom? htext]
      exact List.contains_iff_mem.1 hcontains
    · cases h
  · rename_i n hn
    split at h
    · cases h
    · rename_i hminus
      obtain ⟨hlt, -⟩ := List.getElem?_eq_some_iff.1 h
      obtain ⟨hasMinus, magnitude⟩ := n
      obtain rfl : hasMinus = false := eq_false_of_ne_true hminus
      exact .position hfields hn hlt
  · cases h

/-- A rule that is read has only keys that are known. -/
theorem knows_of_ofEntries? {draft : RuleDraft} (h : RuleDraft.ofEntries? entries = some draft)
    {key : Scalar} {value : Tree} (hentry : (key, value) ∈ entries) : rule.Knows entries key := by
  simp only [RuleDraft.ofEntries?] at h
  split at h
  · rename_i kindKey tree hkinds
    simp only [Option.bind_eq_bind, Option.bind_eq_some_iff] at h
    obtain ⟨kind, hkind, names, hnames, fields, hfields, -⟩ := h
    obtain ⟨hkindEntry, hkindKey⟩ : (kindKey, tree) ∈ entries ∧ _ :=
      List.mem_filter.1 (hkinds ▸ List.mem_singleton_self _)
    have hhas : HasFields entries names :=
      ⟨hkindEntry, text_eq_of_string? (beq_iff_eq.1 hkindKey), hkind, hnames⟩
    cases hkey : RuleDraft.string? key == some "kind" with
    | true => exact .key (by simp [keys, text_eq_of_string? (beq_iff_eq.1 hkey)])
    | false =>
      obtain ⟨field, hfield⟩ := Yaml.exists_of_mapM_eq_some hfields
        (List.mem_filter.2 ⟨hentry, by rw [hkey]; rfl⟩)
      simp only [Option.bind_eq_some_iff] at hfield
      obtain ⟨name, hname, -⟩ := hfield
      exact knows_of_choice? hhas hname
  · cases h

/-- What is read has only keys that are known at its level. -/
theorem Reads.knows (h : level.Reads (.mapping tag entries)) {key : Scalar} {value : Tree}
    (hentry : (key, value) ∈ entries) : level.Knows entries key := by
  by_cases hlevel : level = rule
  · subst hlevel
    obtain ⟨draft, hdraft⟩ := h
    rw [RuleDraft.ofTree?] at hdraft
    split at hdraft
    · cases hdraft
    · exact knows_of_ofEntries? hdraft hentry
  · obtain ⟨fields, hfields, -⟩ := h.exists_fields hlevel
    obtain ⟨_, hentries, rfl, hkeys, -⟩ := Tree.fields?_eq_some_iff.1 hfields
    obtain rfl := Option.some.inj hentries
    exact .key (hkeys _ (List.mem_map_of_mem hentry))

end CatalogLevel

/-! ## Documents -/

/-- A tree stands in a document at a level. -/
inductive StandsAt (document : Tree) : CatalogLevel → Tree → Prop
  | document : StandsAt document .catalog document
  | item {level inner : CatalogLevel} {tag listTag : Tag} {entries : List (Scalar × Tree)}
    {key : Scalar} {items : List Tree} {item : Tree}
    (h : StandsAt document level (.mapping tag entries))
    (hentry : (key, .sequence listTag items) ∈ entries)
    (hlisted : level.listed? key.text = some inner) (hitem : item ∈ items) :
    StandsAt document inner item

/-- Some mapping in a document has a key that is not known at its level. -/
def HasUnknownKey (document : Tree) : Prop :=
  ∃ level tag entries, StandsAt document level (.mapping tag entries) ∧
    ∃ key value, (key, value) ∈ entries ∧ ¬level.Knows entries key

variable {document : Tree}

/-- Whatever stands in a catalog that is read is read at its level. -/
theorem StandsAt.reads {draft : CatalogDraft} (hread : CatalogDraft.ofTree? document = some draft)
    {level : CatalogLevel} {tree : Tree} (h : StandsAt document level tree) :
    level.Reads tree := by
  induction h with
  | document => exact ⟨draft, hread⟩
  | item _ hentry hlisted hitem ih => exact ih.item hentry hlisted hitem

theorem HasUnknownKey.ofTree?_eq_none (h : HasUnknownKey document) :
    CatalogDraft.ofTree? document = none := by
  obtain ⟨level, tag, entries, hstands, key, value, hentry, hunknown⟩ := h
  rw [Option.eq_none_iff_forall_ne_some]
  intro draft hread
  exact hunknown ((hstands.reads hread).knows hentry)

/-- No key stands in a scalar. -/
theorem not_hasUnknownKey_scalar (content : Scalar) : ¬HasUnknownKey (.scalar content) := by
  rintro ⟨level, tag, entries, hstands, -⟩
  have h : ∀ {level tree}, StandsAt (.scalar content) level tree → tree = .scalar content := by
    intro level tree h
    induction h with
    | document => rfl
    | item _ _ _ _ ih => cases ih
  cases h hstands

/-- A document with an unknown key is malformed as a catalog, and nothing is constructed of it;
and so is a document that has no tree. -/
theorem Catalog.run_ofText_of_hasUnknownKey {text : String} {root : Yaml.Node}
    (hroot : Yaml.Node.ofText? text = some root)
    (h : ∀ document, Tree.ofNode? (fun _ => true) root = some document → HasUnknownKey document)
    (registry : Registry) :
    (Catalog.ofText text).run.run registry = (.error .malformed, registry) := by
  have hblank : ¬Text.isBlank text := by
    intro hblank
    obtain ⟨content, rfl⟩ := Yaml.Node.exists_scalar_of_isBlank hblank hroot
    exact not_hasUnknownKey_scalar content (h _ rfl)
  have hnone : (Tree.ofText? (fun _ => true) text).bind CatalogDraft.ofTree? = none := by
    rw [Yaml.Tree.ofText?_eq_bind, hroot, Option.bind_some]
    exact Option.bind_eq_none_iff.2 fun document hdocument => (h document hdocument).ofTree?_eq_none
  rw [Catalog.ofText, if_neg hblank, hnone]
  rfl

/-- A rule for an alias that has a replacement is refused. -/
theorem Catalog.run_ofText_replacementOfAlias :
    let text := "filters:\n- names: [f]\n  deprecations:\n" ++
      "  - {kind: alias, name: a, replacement: b}\n"
    (Catalog.ofText text).run.run { next := 7 } = (.error .malformed, { next := 7 }) := by
  intro text
  have htokens : Yaml.Token.ofText? text = some [.blockMappingStart, .key,
      .scalar true "filters", .value, .blockEntry, .blockMappingStart, .key,
      .scalar true "names", .value, .flowSequenceStart, .scalar true "f", .flowSequenceEnd, .key,
      .scalar true "deprecations", .value, .blockEntry, .flowMappingStart, .key,
      .scalar true "kind", .value, .scalar true "alias", .flowEntry, .key,
      .scalar true "name", .value, .scalar true "a", .flowEntry, .key,
      .scalar true "replacement", .value, .scalar true "b", .flowMappingEnd, .blockEnd,
      .blockEnd] := by
    decide +kernel
  have hdocument : ∃ root, Yaml.Node.ofText? text = some root ∧
      Tree.ofNode? (fun _ => true) root = some (.mapping .none [({ text := "filters" },
        .sequence .none [.mapping .none [
          ({ text := "names" }, .sequence .none [.scalar { text := "f" }]),
          ({ text := "deprecations" }, .sequence .none [.mapping .none [
            ({ text := "kind" }, .scalar { text := "alias" }),
            ({ text := "name" }, .scalar { text := "a" }),
            ({ text := "replacement" }, .scalar { text := "b" })]])]])]) := by
    rw [Yaml.Node.ofText?, htokens]
    exact ⟨_, rfl, rfl⟩
  obtain ⟨root, hroot, hdocument⟩ := hdocument
  refine Catalog.run_ofText_of_hasUnknownKey hroot (fun document h => ?_) _
  obtain rfl := Option.some.inj (hdocument.symm.trans h)
  refine ⟨_, _, _, .item (.item .document (.head _) rfl (.head _)) (.tail _ (.head _)) rfl
    (.head _), { text := "replacement" }, _, .tail _ (.tail _ (.head _)), ?_⟩
  intro hknows
  cases hknows with
  | key h => simp [CatalogLevel.keys] at h
  | field hfields h =>
    obtain ⟨hentry, hkey, hkind, hnames⟩ := hfields
    simp only [List.mem_cons, Prod.mk.injEq, List.not_mem_nil, or_false] at hentry
    obtain ⟨rfl, rfl⟩ | ⟨rfl, rfl⟩ | ⟨rfl, rfl⟩ := hentry
    · cases hkind
      cases hnames
      simp at h
    · simp at hkey
    · simp at hkey
  | position _ h => cases h

/-- The number of a field stands for the field in a rule, although it is no name of one. -/
theorem Catalog.isOk_ofText_of_position :
    let text := "policy:\n- {kind: alias, 0: a}\n"
    (∃ root document tag entries names key value, Yaml.Node.ofText? text = some root ∧
      Tree.ofNode? (fun _ => true) root = some document ∧
      StandsAt document .rule (.mapping tag entries) ∧ CatalogLevel.HasFields entries names ∧
      (key, value) ∈ entries ∧ key.text ∉ "kind" :: names) ∧
    ((Catalog.ofText text).run.run {}).1.isOk := by
  intro text
  have htokens : Yaml.Token.ofText? text = some
      [.blockMappingStart, .key, .scalar true "policy", .value, .blockEntry, .flowMappingStart,
        .key, .scalar true "kind", .value, .scalar true "alias", .flowEntry, .key,
        .scalar true "0", .value, .scalar true "a", .flowMappingEnd, .blockEnd] := by
    decide +kernel
  have hdocument : ∃ root, Yaml.Node.ofText? text = some root ∧
      Tree.ofNode? (fun _ => true) root = some (.mapping .none [({ text := "policy" },
        .sequence .none [.mapping .none [
          ({ text := "kind" }, .scalar { text := "alias" }),
          ({ text := "0" }, .scalar { text := "a" })]])]) := by
    rw [Yaml.Node.ofText?, htokens]
    exact ⟨_, rfl, rfl⟩
  obtain ⟨root, hroot, hdocument⟩ := hdocument
  refine ⟨⟨root, _, _, _, ["name", "removed_after", "link"], { text := "0" }, _, hroot,
    hdocument, .item .document (.head _) rfl (.head _), ⟨.head _, rfl, rfl, rfl⟩,
    .tail _ (.head _), ?_⟩, ?_⟩
  · decide
  · decide +kernel

end PolicyLint
