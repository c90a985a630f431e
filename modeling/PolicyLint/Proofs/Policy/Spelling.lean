import Mathlib.Logic.Relation
import PolicyLint.Proofs.Policy.Elements
import PolicyLint.Proofs.Rule.Outline

/-!
# Other spellings of a policy

The same filters and actions can be written in several ways. A type alone stands for a mapping
with nothing but that type, filters that follow each other may be put into a block for `or`,
`and` or `not`, and entries that are no filters or actions count for nothing (`FilterStep`,
`ActionStep`). A resource type may be written with its provider. `Respelled` relates the data of
policies that differ by any number of such changes, at any depth of blocks.

Main statement : data that are respelled are read as a policy with the same report under every
catalog (`exists_ofData_of_respelled`). What a report reads of a policy is its `Reading`, and no
change touches that.
-/

namespace PolicyLint

namespace PolicyElement

/-! ## Changes of lists -/

/-- One change in how filters are written, anywhere in a list of entries. -/
inductive FilterStep : List Value → List Value → Prop
  | spellOut (name : String) :
    FilterStep [.string name] [.mapping [("type", .string name)]]
  | wrap {run : List Value} {block : Value} (hblock : IsBlock block run) : FilterStep run [block]
  | rename {items : List Value} {block block' : Value} (hblock : IsBlock block items)
    (hblock' : IsBlock block' items) : FilterStep [block] [block']
  | insert {entry : Value} (hname : ∀ name, entry ≠ .string name)
    (hmapping : ∀ data, entry ≠ .mapping data) : FilterStep [] [entry]
  | within {items items' : List Value} {key : String} (hkey : key ∈ ["or", "and", "not"])
    (hitems : FilterStep items items') :
    FilterStep [.mapping [(key, .list items)]] [.mapping [(key, .list items')]]
  | beside {run run' : List Value} (before after : List Value) (hrun : FilterStep run run') :
    FilterStep (before ++ run ++ after) (before ++ run' ++ after)

/-- One change in how actions are written, anywhere in a list of entries. -/
inductive ActionStep : List Value → List Value → Prop
  | spellOut (name : String) :
    ActionStep [.string name] [.mapping [("type", .string name)]]
  | insert {entry : Value} (hname : ∀ name, entry ≠ .string name)
    (htype : ∀ (data : Mapping) (name : String), entry = .mapping data →
      data.get? "type" ≠ some (.string name)) : ActionStep [] [entry]
  | beside {run run' : List Value} (before after : List Value) (hrun : ActionStep run run') :
    ActionStep (before ++ run ++ after) (before ++ run' ++ after)

theorem filterLeavesOf_append (entries more : List Value) :
    filterLeavesOf (entries ++ more) = filterLeavesOf entries ++ filterLeavesOf more := by
  simp only [filterLeavesOf_eq_flatMap, List.flatMap_append]

theorem filterLeavesOf_singleton (entry : Value) :
    filterLeavesOf [entry] = filterLeaves entry := by
  rw [filterLeavesOf_eq_flatMap, List.flatMap_singleton]

/-- A type alone is a filter with nothing but that type. -/
theorem isFilter_typeOnly (name : String) :
    IsFilter (.mapping [("type", .string name)]) (ofName name) := by
  refine .typed (fun items h => ?_) rfl
  cases h

/-- However the filters of a list are written, they are the same. -/
theorem FilterStep.filterLeavesOf_eq {entries entries' : List Value}
    (h : FilterStep entries entries') : filterLeavesOf entries = filterLeavesOf entries' := by
  induction h with
  | spellOut name =>
    rw [filterLeavesOf_singleton, filterLeavesOf_singleton,
      filterLeaves_of_isFilter (isFilter_typeOnly name), filterLeaves]
  | wrap hblock => rw [filterLeavesOf_singleton, filterLeaves_of_isBlock hblock]
  | rename hblock hblock' =>
    rw [filterLeavesOf_singleton, filterLeavesOf_singleton, filterLeaves_of_isBlock hblock,
      filterLeaves_of_isBlock hblock']
  | insert hname hmapping =>
    rw [filterLeavesOf_singleton, filterLeaves_of_not, filterLeavesOf]
    · rintro items ⟨-⟩
      exact hmapping _ rfl
    · rintro filter (⟨name⟩ | -)
      · exact hname _ rfl
      · exact hmapping _ rfl
      · exact hmapping _ rfl
  | within hkey _ ih =>
    rw [filterLeavesOf_singleton, filterLeavesOf_singleton,
      filterLeaves_of_isBlock (.intro hkey), filterLeaves_of_isBlock (.intro hkey), ih]
  | beside before after _ ih => simp only [filterLeavesOf_append, ih]

/-- However the actions of a list are written, they are the same. -/
theorem ActionStep.filterMap_action?_eq {entries entries' : List Value}
    (h : ActionStep entries entries') :
    entries.filterMap action? = entries'.filterMap action? := by
  induction h with
  | spellOut name => rfl
  | @insert entry hname htype =>
    have hnone : action? entry = none := by
      refine Option.eq_none_iff_forall_ne_some.2 fun action haction => ?_
      cases action?_eq_some_iff.1 haction with
      | name type => exact hname type rfl
      | typed h => exact htype _ _ rfl h
    rw [List.filterMap_cons_none hnone]
  | beside before after _ ih => simp only [List.filterMap_append, ih]

end PolicyElement

open PolicyElement (FilterStep ActionStep filterLeavesOf action?)

/-! ## Changes of policies -/

/-- A resource type with its provider stays as it is. -/
theorem ResourceName.normalize_normalize (resource : String) :
    normalize (normalize resource) = normalize resource := by
  by_cases h : resource.toList.contains '.' = true
  · rw [normalize, normalize, if_pos h, if_pos h]
  · have hdot : (defaultProvider ++ "." ++ resource).toList.contains '.' = true := by
      simp [String.toList_append]
    have hnormalize : normalize resource = defaultProvider ++ "." ++ resource := if_neg h
    rw [hnormalize, normalize, if_pos hdot]

/-- One change in how the value of a key of a policy is written. -/
inductive ValueStep : String → Value → Value → Prop
  | filters {entries entries' : List Value} (hentries : FilterStep entries entries') :
    ValueStep "filters" (.list entries) (.list entries')
  | actions {entries entries' : List Value} (hentries : ActionStep entries entries') :
    ValueStep "actions" (.list entries) (.list entries')
  | resource (name : String) :
    ValueStep "resource" (.string name) (.string (ResourceName.normalize name))

/-- One change in how a policy is written. -/
inductive DataStep : Mapping → Mapping → Prop
  | change {key : String} {value value' : Value} (before after : Mapping)
    (hvalue : ValueStep key value value') :
    DataStep (before ++ (key, value) :: after) (before ++ (key, value') :: after)

/-- Data that differ by any number of changes in how they are written. -/
def Respelled : Mapping → Mapping → Prop :=
  Relation.EqvGen DataStep

namespace DataStep

variable {data data' : Mapping} (h : DataStep data data')
include h

/-- What the value of a key gives is the same if changes of that value do not matter. -/
theorem congr_get? {α : Type} (f : Option Value → α) (key : String)
    (hf : ∀ value value', ValueStep key value value' → f (some value) = f (some value')) :
    f (data.get? key) = f (data'.get? key) := by
  obtain ⟨before, after, hvalue⟩ := h
  unfold Mapping.get?
  rw [List.lookup_append, List.lookup_append, NameMap.lookup_cons_eq, NameMap.lookup_cons_eq]
  cases before.lookup key with
  | some value => rfl
  | none =>
    rw [Option.none_or, Option.none_or]
    split
    · rename_i hkey
      subst hkey
      exact hf _ _ hvalue
    · rfl

/-- No change adds a key or takes one away. -/
theorem hasKey_eq : data.hasKey = data'.hasKey := by
  obtain ⟨before, after, -⟩ := h
  funext key
  unfold Mapping.hasKey
  rw [List.any_append, List.any_append, List.any_cons, List.any_cons]

/-- No change touches any other key. -/
theorem get?_eq {key : String} (hkey : key ∉ ["filters", "actions", "resource"]) :
    data.get? key = data'.get? key := by
  refine h.congr_get? id key fun value value' hvalue => absurd ?_ hkey
  cases hvalue <;> simp

/-- No change touches the filters. -/
theorem filterLeavesOf_eq : filterLeavesOf (((data.get? "filters").bind Value.list?).getD []) =
    filterLeavesOf (((data'.get? "filters").bind Value.list?).getD []) := by
  refine h.congr_get? (fun v => filterLeavesOf ((v.bind Value.list?).getD [])) "filters"
    fun value value' hvalue => ?_
  generalize hkey : "filters" = key at hvalue
  cases hvalue with
  | filters hentries => exact hentries.filterLeavesOf_eq
  | _ => simp at hkey

/-- No change touches the actions. -/
theorem filterMap_action?_eq :
    (((data.get? "actions").bind Value.list?).getD []).filterMap action? =
      (((data'.get? "actions").bind Value.list?).getD []).filterMap action? := by
  refine h.congr_get? (fun v => ((v.bind Value.list?).getD []).filterMap action?) "actions"
    fun value value' hvalue => ?_
  generalize hkey : "actions" = key at hvalue
  cases hvalue with
  | actions hentries => exact hentries.filterMap_action?_eq
  | _ => simp at hkey

/-- No change touches the resource type with its provider. -/
theorem map_normalize_eq : (data.string? "resource").map ResourceName.normalize =
    (data'.string? "resource").map ResourceName.normalize := by
  refine h.congr_get? (fun v => (v.bind Value.string?).map ResourceName.normalize) "resource"
    fun value value' hvalue => ?_
  generalize hkey : "resource" = key at hvalue
  cases hvalue with
  | resource name => exact congrArg some (ResourceName.normalize_normalize name).symm
  | _ => simp at hkey

end DataStep

namespace Policy

/-- What a report reads of a policy : of its data as a whole no more than its keys and its
type, and the elements in it. -/
structure Reading where
  name : String
  resourceType : String
  hasKey : String → Bool
  type : Option String
  mode : PolicyElement
  filters : List PolicyElement
  actions : List PolicyElement

/-- What a report reads of a policy. -/
def reading (policy : Policy) : Reading where
  name := policy.name
  resourceType := policy.resourceType
  hasKey := policy.data.hasKey
  type := policy.data.string? "type"
  mode := policy.modeElement
  filters := policy.filterElements
  actions := policy.actionElements

end Policy

/-- The report on a policy depends on its reading only. -/
theorem Policy.report_congr {policy policy' : Policy} (h : policy.reading = policy'.reading)
    (catalog : Catalog) :
    (policy.withRules catalog).report = (policy'.withRules catalog).report := by
  obtain ⟨hname, hresource, hkeys, htype, hmode, hfilters, hactions⟩ := Reading.mk.inj h
  have happlies : ∀ rule : Rule, rule.appliesTo policy.data = rule.appliesTo policy'.data :=
    fun rule => rule.kind.appliesTo_congr ⟨congrFun hkeys, htype⟩
  have hwhole : ∀ rules : List Rule, Subject.findings ⟨rules, some policy.data, none⟩ =
      Subject.findings ⟨rules, some policy'.data, none⟩ := by
    intro rules
    show (rules.filter fun rule => rule.appliesTo policy.data).map _ =
      (rules.filter fun rule => rule.appliesTo policy'.data).map _
    simp only [happlies]
  unfold RuledPolicy.report RuledPolicy.subject PolicySubject.report RuledPolicy.whole withRules
  simp only [Option.map_some, Option.getD_some, hname, hresource, hmode, hfilters, hactions,
    hwhole]

/-! ## Respelled policies -/

namespace Policy

/-- What a report reads of the policy that data are, or the error if they are none. -/
def readingOf (index : Nat) (data : Mapping) : Except LoadError Reading :=
  (ofData index data).map reading

theorem readingOf_eq (index : Nat) (data : Mapping) : readingOf index data =
    match data.string? "name", (data.string? "resource").map ResourceName.normalize with
    | none, _ => .error (.missingField index "name")
    | some _, none => .error (.missingField index "resource")
    | some name, some resourceType => .ok (reading ⟨name, resourceType, data⟩) := by
  unfold readingOf ofData requiredString
  cases data.string? "name" with
  | none => rfl
  | some name => cases data.string? "resource" <;> rfl

theorem reading_eq_of_step {data data' : Mapping} (h : DataStep data data')
    (name resourceType : String) :
    reading ⟨name, resourceType, data⟩ = reading ⟨name, resourceType, data'⟩ := by
  have htype : data.string? "type" = data'.string? "type" := by
    rw [Mapping.string?, Mapping.string?, h.get?_eq (by simp)]
  have hmode : modeElement ⟨name, resourceType, data⟩ =
      modeElement ⟨name, resourceType, data'⟩ := by
    rw [modeElement, modeElement, mode, mode, h.get?_eq (by simp)]
  rw [reading, reading, Reading.mk.injEq]
  exact ⟨rfl, rfl, h.hasKey_eq, htype, hmode, h.filterLeavesOf_eq, h.filterMap_action?_eq⟩

/-- No change in how a policy is written touches what a report reads of it. -/
theorem readingOf_eq_of_step {data data' : Mapping} (h : DataStep data data') (index : Nat) :
    readingOf index data = readingOf index data' := by
  have hname : data.string? "name" = data'.string? "name" := by
    rw [Mapping.string?, Mapping.string?, h.get?_eq (by simp)]
  rw [readingOf_eq, readingOf_eq, hname, h.map_normalize_eq]
  split
  · rfl
  · rfl
  · rw [reading_eq_of_step h]

theorem readingOf_eq_of_respelled {data data' : Mapping} (h : Respelled data data')
    (index : Nat) : readingOf index data = readingOf index data' := by
  induction h with
  | rel _ _ hstep => exact readingOf_eq_of_step hstep index
  | refl => rfl
  | symm _ _ _ ih => exact ih.symm
  | trans _ _ _ _ _ ih ih' => exact ih.trans ih'

/-- Respelled data are a policy with the same report under every catalog. -/
theorem exists_ofData_of_respelled {index : Nat} {data data' : Mapping} {policy : Policy}
    (hdata : Respelled data data') (hpolicy : ofData index data = .ok policy) :
    ∃ policy', ofData index data' = .ok policy' ∧ ∀ catalog,
      (policy'.withRules catalog).report = (policy.withRules catalog).report := by
  have hreading := readingOf_eq_of_respelled hdata index
  unfold readingOf at hreading
  rw [hpolicy] at hreading
  cases hpolicy' : ofData index data' with
  | error error =>
    rw [hpolicy'] at hreading
    cases hreading
  | ok policy' =>
    rw [hpolicy'] at hreading
    exact ⟨policy', rfl, report_congr (Except.ok.inj hreading).symm⟩

/-- A filter in two blocks, with a number beside it, is taken out of the blocks and spelled out,
and the resource type gets its provider. -/
theorem exists_ofData_unwrapped :
    let block (items : List Value) : Value := .mapping [("not", .list items)]
    let data : Mapping := [("filters", .list [block [block [.string "unused"], .null]]),
      ("name", .string "p"), ("resource", .string "iam-policy")]
    let data' : Mapping := [("filters", .list [.mapping [("type", .string "unused")]]),
      ("name", .string "p"), ("resource", .string "aws.iam-policy")]
    Respelled data data' ∧ ofData 1 data = .ok ⟨"p", "aws.iam-policy", data⟩ ∧
      ∃ policy', ofData 1 data' = .ok policy' ∧ ∀ catalog,
        (policy'.withRules catalog).report =
          (withRules ⟨"p", "aws.iam-policy", data⟩ catalog).report := by
  intro block data data'
  have hblock : ∀ items, PolicyElement.IsBlock (block items) items := fun _ => .intro (by simp)
  have hfilters : ∀ {entries entries' : List Value}, FilterStep entries entries' → Respelled
      [("filters", .list entries), ("name", .string "p"), ("resource", .string "iam-policy")]
      [("filters", .list entries'), ("name", .string "p"), ("resource", .string "iam-policy")] :=
    fun h => .rel _ _ (.change [] _ (.filters h))
  have hinner : FilterStep [block [.string "unused", .null]]
      [block [block [.string "unused"], .null]] :=
    .within (by simp) (.beside [] [.null] (.wrap (hblock [.string "unused"])))
  have hnull : FilterStep [block [.string "unused"]] [block [.string "unused", .null]] := by
    have hnull : FilterStep [] [.null] := .insert nofun nofun
    exact .within (by simp) (.beside [.string "unused"] [] hnull)
  have hspelled : Respelled data data' :=
    (hfilters hinner).symm.trans _ _ _ <| (hfilters hnull).symm.trans _ _ _ <|
      (hfilters (.wrap (hblock _))).symm.trans _ _ _ <|
      (hfilters (.spellOut "unused")).trans _ _ _ <|
      .rel _ _ (.change [_, _] [] (.resource "iam-policy"))
  have hdata : ofData 1 data = .ok ⟨"p", "aws.iam-policy", data⟩ := by
    rfl
  exact ⟨hspelled, hdata, exists_ofData_of_respelled hspelled hdata⟩

end Policy

end PolicyLint
