import PolicyLint.Policy.Ruled
import PolicyLint.Proofs.Places

/-!
# Where the elements of a policy stand

A filter stands at a path : the positions of the blocks around it, the outermost first, and
its own position in the innermost list (`FilterAt`). An action stands at its position in the
list of actions (`ActionAt`). Reading filters from left to right and depth first is reading
them in the lexicographic order of their paths.

Main statements : `filterLeavesOf` and `action?` list exactly the filters and the actions that
stand somewhere, in the order of their places (`exists_listsAll_filterLeavesOf`,
`exists_listsAll_filterMap_action?`).
-/

namespace PolicyLint

namespace PolicyElement

/-! ## Filters -/

/-- The entry that only holds the filters of a list together : a mapping that has one key, for
`or`, `and` or `not`. -/
inductive IsBlock : Value → List Value → Prop
  | intro {key : String} {items : List Value} (h : key ∈ ["or", "and", "not"]) :
    IsBlock (.mapping [(key, .list items)]) items

/-- The filter that an entry is : a text is the type of a filter, and any mapping that is no
block is a filter of the type it names, or else a value filter. -/
inductive IsFilter : Value → PolicyElement → Prop
  | name (type : String) : IsFilter (.string type) ⟨type, [("type", .string type)]⟩
  | typed {data : Mapping} {type : String} (hblock : ∀ items, ¬IsBlock (.mapping data) items)
    (htype : data.get? "type" = some (.string type)) : IsFilter (.mapping data) ⟨type, data⟩
  | untyped {data : Mapping} (hblock : ∀ items, ¬IsBlock (.mapping data) items)
    (htype : ∀ type, data.get? "type" ≠ some (.string type)) :
    IsFilter (.mapping data) ⟨"value", data⟩

/-- The filter that stands at a path in a list of entries. -/
inductive FilterAt : List Value → List Nat → PolicyElement → Prop
  | entry {entries : List Value} {i : Nat} {value : Value} {filter : PolicyElement}
    (hvalue : entries[i]? = some value) (hfilter : IsFilter value filter) :
    FilterAt entries [i] filter
  | block {entries : List Value} {i : Nat} {value : Value} {items : List Value}
    {path : List Nat} {filter : PolicyElement} (hvalue : entries[i]? = some value)
    (hblock : IsBlock value items) (hfilter : FilterAt items path filter) :
    FilterAt entries (i :: path) filter

theorem contains_blockKeys_iff {key : String} :
    blockKeys.contains key = true ↔ key ∈ ["or", "and", "not"] :=
  List.contains_iff_mem

theorem string?_eq_some {data : Mapping} {key text : String} :
    data.string? key = some text ↔ data.get? key = some (.string text) := by
  unfold Mapping.string?
  cases data.get? key with
  | none => simp
  | some value => cases value <;> simp [Value.string?]

/-- A mapping that is no block is one filter. -/
theorem isFilter_mapping_iff {data : Mapping} {filter : PolicyElement}
    (hblock : ∀ items, ¬IsBlock (.mapping data) items) :
    IsFilter (.mapping data) filter ↔ filter = ofFilterData data := by
  unfold ofFilterData
  constructor
  · rintro (_ | ⟨-, htype⟩ | ⟨-, htype⟩)
    · rw [string?_eq_some.2 htype, Option.getD_some]
    · have hnone : data.string? "type" = none :=
        Option.eq_none_iff_forall_ne_some.2 fun type h => htype type (string?_eq_some.1 h)
      rw [hnone, Option.getD_none, valueFilter]
  · rintro rfl
    cases htype : data.string? "type" with
    | none =>
      refine .untyped hblock fun type h => ?_
      rw [string?_eq_some.2 h] at htype
      cases htype
    | some type => exact .typed hblock (string?_eq_some.1 htype)

/-- An entry is a block, or one filter, or nothing that counts. Blocks are taken apart in
turn. -/
theorem forest_induction {P : Value → Prop} {Q : List Value → Prop}
    (block : ∀ value items, IsBlock value items → Q items → P value)
    (filter : ∀ value filter, IsFilter value filter → P value)
    (other : ∀ value, (∀ items, ¬IsBlock value items) → (∀ filter, ¬IsFilter value filter) →
      P value)
    (nil : Q []) (cons : ∀ entry entries, P entry → Q entries → Q (entry :: entries)) :
    ∀ entries, Q entries := by
  have single : ∀ data : Mapping, (∀ items, ¬IsBlock (.mapping data) items) → P (.mapping data) :=
    fun data hblock => filter _ _ ((isFilter_mapping_iff hblock).2 rfl)
  refine (filterLeaves.mutual_induct P Q (fun name => filter _ _ (.name name))
    (fun key items hkey ih => ?_) (fun key items hkey => ?_) (fun data hdata => ?_)
    (fun value hname hlist hdata => ?_) nil cons).2
  · exact block _ items (.intro (contains_blockKeys_iff.1 hkey)) ih
  · refine single _ fun items' h => ?_
    cases h with
    | intro h => exact hkey (contains_blockKeys_iff.2 h)
  · refine single data fun items h => ?_
    cases h with
    | intro h => exact hdata _ items rfl
  · refine other value (fun items h => ?_) fun filter h => ?_
    · cases h with
      | intro h => exact hlist _ items rfl
    · cases h with
      | name type => exact hname type rfl
      | typed => exact hdata _ rfl
      | untyped => exact hdata _ rfl

theorem filterLeaves_of_isBlock {value : Value} {items : List Value} (h : IsBlock value items) :
    filterLeaves value = filterLeavesOf items := by
  cases h with
  | intro h => rw [filterLeaves, if_pos (contains_blockKeys_iff.2 h)]

theorem filterLeaves_of_isFilter {value : Value} {filter : PolicyElement}
    (h : IsFilter value filter) : filterLeaves value = [filter] := by
  cases value with
  | string name =>
    cases h with
    | name => simp [filterLeaves, ofName]
  | mapping data =>
    have hblock : ∀ items, ¬IsBlock (.mapping data) items := by
      cases h with
      | typed hblock => exact hblock
      | untyped hblock => exact hblock
    rw [(isFilter_mapping_iff hblock).1 h]
    by_cases hdata : ∃ key items, data = [(key, .list items)]
    · obtain ⟨key, items, rfl⟩ := hdata
      have hkey : ¬blockKeys.contains key = true := fun h =>
        hblock items (.intro (contains_blockKeys_iff.1 h))
      rw [filterLeaves, if_neg hkey]
    · rw [filterLeaves]
      rintro key items rfl
      exact hdata ⟨key, items, rfl⟩
  | _ => cases h

theorem filterLeaves_of_not {value : Value} (hblock : ∀ items, ¬IsBlock value items)
    (hfilter : ∀ filter, ¬IsFilter value filter) : filterLeaves value = [] := by
  cases value with
  | string name => exact absurd (.name name) (hfilter _)
  | mapping data => exact absurd ((isFilter_mapping_iff hblock).2 rfl) (hfilter _)
  | _ => rfl

theorem IsBlock.not_isFilter {value : Value} {items : List Value} (h : IsBlock value items)
    (filter : PolicyElement) : ¬IsFilter value filter := by
  intro hfilter
  cases hfilter with
  | name => cases h
  | typed hblock => exact hblock items h
  | untyped hblock => exact hblock items h

theorem IsBlock.items_unique {value : Value} {items items' : List Value}
    (h : IsBlock value items) (h' : IsBlock value items') : items = items' := by
  cases h with
  | intro => cases h' with
    | intro => rfl

theorem IsFilter.unique {value : Value} {filter filter' : PolicyElement}
    (h : IsFilter value filter) (h' : IsFilter value filter') : filter = filter' := by
  have := (filterLeaves_of_isFilter h).symm.trans (filterLeaves_of_isFilter h')
  exact List.singleton_inj.1 this

/-- What stands in an entry : the filter that it is, or the filters of the block that it is. -/
def StandsIn (value : Value) (path : List Nat) (filter : PolicyElement) : Prop :=
  (path = [] ∧ IsFilter value filter) ∨
    ∃ items, IsBlock value items ∧ FilterAt items path filter

theorem standsWithin_standsIn_iff {entries : List Value} {path : List Nat}
    {filter : PolicyElement} :
    StandsWithin StandsIn 0 entries path filter ↔ FilterAt entries path filter := by
  constructor
  · rintro ⟨i, rest, rfl, value, hvalue, ⟨rfl, hfilter⟩ | ⟨items, hblock, hfilter⟩⟩
    · rw [Nat.zero_add]
      exact .entry hvalue hfilter
    · rw [Nat.zero_add]
      exact .block hvalue hblock hfilter
  · intro h
    cases h with
    | entry hvalue hfilter =>
      exact ⟨_, [], by rw [Nat.zero_add], _, hvalue, .inl ⟨rfl, hfilter⟩⟩
    | block hvalue hblock hfilter =>
      exact ⟨_, _, by rw [Nat.zero_add], _, hvalue, .inr ⟨_, hblock, hfilter⟩⟩

theorem filterLeavesOf_eq_flatMap (entries : List Value) :
    filterLeavesOf entries = entries.flatMap filterLeaves := by
  induction entries with
  | nil => rw [filterLeavesOf, List.flatMap_nil]
  | cons entry entries ih => rw [filterLeavesOf, List.flatMap_cons, ih]

/-- The filters of a list of entries are listed in the order of their paths. -/
theorem exists_listsAll_filterLeavesOf (entries : List Value) :
    ∃ found, ListsAll (FilterAt entries) found ∧
      found.map Prod.snd = filterLeavesOf entries := by
  -- The induction needs this for the entries of a block, too.
  have hentries : ∀ entries : List Value,
      (∀ value ∈ entries, ∃ found, ListsAll (StandsIn value) found ∧
        found.map Prod.snd = filterLeaves value) →
      ∃ found, ListsAll (FilterAt entries) found ∧
        found.map Prod.snd = filterLeavesOf entries := by
    intro entries h
    obtain ⟨found, hfound, hmap⟩ := exists_listsAll_standsWithin h
    refine ⟨found, ⟨hfound.sorted, fun path filter => ?_⟩, ?_⟩
    · rw [hfound.mem_iff, standsWithin_standsIn_iff]
    · rw [hmap, filterLeavesOf_eq_flatMap]
  refine hentries entries ?_
  refine forest_induction
    (P := fun value => ∃ found, ListsAll (StandsIn value) found ∧
      found.map Prod.snd = filterLeaves value)
    (Q := fun entries => ∀ value ∈ entries, ∃ found, ListsAll (StandsIn value) found ∧
      found.map Prod.snd = filterLeaves value)
    (fun value items hblock ih => ?_) (fun value filter hfilter => ?_)
    (fun value hblock hfilter => ?_) nofun (fun entry entries hentry ih => ?_) entries
  · obtain ⟨found, hfound, hmap⟩ := hentries items ih
    refine ⟨found, ⟨hfound.sorted, fun path filter => ?_⟩, ?_⟩
    · rw [hfound.mem_iff]
      constructor
      · exact fun h => .inr ⟨items, hblock, h⟩
      · rintro (⟨-, h⟩ | ⟨items', hblock', h⟩)
        · exact absurd h (hblock.not_isFilter filter)
        · exact hblock.items_unique hblock' ▸ h
    · rw [hmap, filterLeaves_of_isBlock hblock]
  · refine ⟨[([], filter)], ⟨List.pairwise_singleton _ _, fun path filter' => ?_⟩, ?_⟩
    · rw [List.mem_singleton, Prod.mk.injEq]
      constructor
      · rintro ⟨rfl, rfl⟩
        exact .inl ⟨rfl, hfilter⟩
      · rintro (⟨rfl, h⟩ | ⟨items, hblock, -⟩)
        · exact ⟨rfl, h.unique hfilter⟩
        · exact absurd hfilter (hblock.not_isFilter filter)
    · rw [filterLeaves_of_isFilter hfilter]
      rfl
  · refine ⟨[], ⟨.nil, fun path filter => ?_⟩, ?_⟩
    · refine iff_of_false List.not_mem_nil ?_
      rintro (⟨-, h⟩ | ⟨items, h, -⟩)
      · exact hfilter filter h
      · exact hblock items h
    · rw [filterLeaves_of_not hblock hfilter]
      rfl
  · intro value hmem
    rcases List.mem_cons.1 hmem with rfl | hmem
    · exact hentry
    · exact ih value hmem

theorem mem_filterLeavesOf_iff {entries : List Value} {filter : PolicyElement} :
    filter ∈ filterLeavesOf entries ↔ ∃ path, FilterAt entries path filter := by
  obtain ⟨found, hfound, hmap⟩ := exists_listsAll_filterLeavesOf entries
  simp only [← hmap, List.mem_map, Prod.exists, exists_eq_right, hfound.mem_iff]

/-! ## Actions -/

/-- The action that an entry is : a text is the type of an action, and a mapping is an action
of the type it names. -/
inductive IsAction : Value → PolicyElement → Prop
  | name (type : String) : IsAction (.string type) ⟨type, [("type", .string type)]⟩
  | typed {data : Mapping} {type : String} (htype : data.get? "type" = some (.string type)) :
    IsAction (.mapping data) ⟨type, data⟩

/-- The action that stands at a position in a list of entries. -/
def ActionAt (entries : List Value) (i : Nat) (action : PolicyElement) : Prop :=
  ∃ value, entries[i]? = some value ∧ IsAction value action

theorem action?_eq_some_iff {value : Value} {action : PolicyElement} :
    action? value = some action ↔ IsAction value action := by
  constructor
  · intro h
    cases value with
    | string name =>
      obtain rfl := Option.some.inj h
      exact .name name
    | mapping data =>
      obtain ⟨type, htype, rfl⟩ := Option.map_eq_some_iff.1 h
      exact .typed (string?_eq_some.1 htype)
    | _ => cases h
  · intro h
    cases h with
    | name type => rfl
    | typed htype => rw [action?, string?_eq_some.2 htype, Option.map_some]

/-- The actions of a list of entries are listed in the order of their positions. -/
theorem exists_listsAll_filterMap_action? (entries : List Value) :
    ∃ found, ListsAll (ActionAt entries) found ∧
      found.map Prod.snd = entries.filterMap action? := by
  -- Positions behind the first entry count from there, so the induction lets `k` vary.
  have hfrom : ∀ k, ∃ found : List (Nat × PolicyElement),
      ListsAll (fun i action => k ≤ i ∧ ActionAt entries (i - k) action) found ∧
        found.map Prod.snd = entries.filterMap action? := by
    induction entries with
    | nil =>
      refine fun k => ⟨[], ⟨.nil, fun i action => iff_of_false List.not_mem_nil ?_⟩, rfl⟩
      rintro ⟨-, value, hvalue, -⟩
      simp at hvalue
    | cons entry entries ih =>
      intro k
      obtain ⟨found, hfound, hmap⟩ := ih (k + 1)
      -- What stands at `k` is the first entry, and what stands behind it is in the rest.
      have hcons : ∀ i action, k ≤ i ∧ ActionAt (entry :: entries) (i - k) action ↔
          (i = k ∧ IsAction entry action) ∨
            (k + 1 ≤ i ∧ ActionAt entries (i - (k + 1)) action) := by
        intro i action
        rcases Nat.lt_trichotomy i k with hlt | rfl | hgt
        · refine iff_of_false (fun h => ?_) ?_ <;> omega
        · simp [ActionAt]
        · have hsub : i - k = i - (k + 1) + 1 := by omega
          rw [ActionAt, hsub]
          simp only [List.getElem?_cons_succ]
          refine ⟨fun h => .inr ⟨hgt, h.2⟩, fun h => ⟨by omega, ?_⟩⟩
          rcases h with ⟨rfl, -⟩ | h
          · omega
          · exact h.2
      cases haction : action? entry with
      | none =>
        refine ⟨found, ⟨hfound.sorted, fun i action => ?_⟩, ?_⟩
        · rw [hfound.mem_iff, hcons]
          refine ⟨.inr, fun h => h.resolve_left ?_⟩
          rintro ⟨-, h⟩
          rw [action?_eq_some_iff.2 h] at haction
          cases haction
        · rw [List.filterMap_cons_none haction, hmap]
      | some action =>
        refine ⟨(k, action) :: found, ⟨List.pairwise_cons.2 ⟨?_, hfound.sorted⟩, ?_⟩, ?_⟩
        · rintro ⟨i, action'⟩ hmem
          exact ((hfound.mem_iff i action').1 hmem).1
        · intro i action'
          rw [List.mem_cons, Prod.mk.injEq, hfound.mem_iff, hcons, ← action?_eq_some_iff,
            haction, Option.some_inj, eq_comm (a := action')]
        · rw [List.filterMap_cons_some haction, List.map_cons, hmap]
  obtain ⟨found, hfound, hmap⟩ := hfrom 0
  exact ⟨found, ⟨hfound.sorted, fun i action =>
    (hfound.mem_iff i action).trans (by simp)⟩, hmap⟩

theorem mem_filterMap_action?_iff {entries : List Value} {action : PolicyElement} :
    action ∈ entries.filterMap action? ↔ ∃ i, ActionAt entries i action := by
  obtain ⟨found, hfound, hmap⟩ := exists_listsAll_filterMap_action? entries
  simp only [← hmap, List.mem_map, Prod.exists, exists_eq_right, hfound.mem_iff]

end PolicyElement

end PolicyLint
