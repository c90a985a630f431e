import Mathlib.Data.Fintype.EquivFin
import PolicyLint.NameMap

/-!
# Entries and values of finite maps

What `get?` says of the maps that `NameMap` makes from others, and how it tells which entries
and values a map has (`NameMap.mem_entries_iff`, `NameMap.mem_values_iff`). `NameMap.map` changes
every value in the same way.
-/

namespace PolicyLint.NameMap

variable {α : Type}

/-! ## Look-ups in maps that are made from others -/

theorem get?_insert (name : String) (value : α) (m : NameMap α) (n : String) :
    (m.insert name value).get? n = if n = name then some value else m.get? n := by
  rw [insert, get?_insertWith]
  cases m.get? name <;> rfl

theorem get?_union (m other : NameMap α) (n : String) :
    (m ∪ other).get? n = (other.get? n).or (m.get? n) := by
  show (m.mergeWith (fun _ new => new) other).get? n = _
  rw [get?_mergeWith]
  cases other.get? n with
  | none => rfl
  | some new => cases m.get? n <;> rfl

theorem get?_insertNames (names : List String) (value : α) (m : NameMap α) (n : String) :
    (m.insertNames names value).get? n = if n ∈ names then some value else m.get? n := by
  unfold insertNames
  induction names generalizing m with
  | nil => simp
  | cons name names ih =>
    rw [List.foldl_cons, ih, get?_insert]
    by_cases hn : n = name <;> by_cases hmem : n ∈ names <;> simp [hn, hmem]

/-- The map that has `value` for every name in a list. -/
def ofNames (names : List String) (value : α) : NameMap α :=
  (∅ : NameMap α).insertNames names value

theorem get?_ofNames (names : List String) (value : α) (n : String) :
    (ofNames names value).get? n = if n ∈ names then some value else none :=
  get?_insertNames names value ∅ n

/-- Names are added to a map as the map that has them alone is put behind it. -/
theorem insertNames_eq_union (names : List String) (value : α) (m : NameMap α) :
    m.insertNames names value = m ∪ ofNames names value := by
  refine ext_get? fun n => ?_
  rw [get?_insertNames, get?_union, get?_ofNames]
  split <;> rfl

theorem get?_adjust (start : α) (f : α → α) (name : String) (m : NameMap α) (n : String) :
    (m.adjust start f name).get? n =
      if n = name then some (f ((m.get? name).getD start)) else m.get? n := by
  rw [adjust, get?_insertWith]
  cases m.get? name <;> rfl

/-! ## Maps that are merged one after the other -/

@[simp] theorem mergeWith_empty (f : α → α → α) (m : NameMap α) : m.mergeWith f ∅ = m :=
  rfl

@[simp] theorem empty_mergeWith (f : α → α → α) (m : NameMap α) :
    (∅ : NameMap α).mergeWith f m = m := by
  refine ext_get? fun name => ?_
  rw [get?_mergeWith, get?_empty]
  cases m.get? name <;> rfl

theorem mergeWith_assoc {f : α → α → α} (h : ∀ x y z, f (f x y) z = f x (f y z))
    (m m' m'' : NameMap α) :
    (m.mergeWith f m').mergeWith f m'' = m.mergeWith f (m'.mergeWith f m'') := by
  refine ext_get? fun name => ?_
  simp only [get?_mergeWith]
  cases m''.get? name with
  | none => rfl
  | some new => cases m'.get? name <;> cases m.get? name <;> simp [h]

/-- What is added behind a merged map changes it in place, if `start` is neutral. -/
theorem mergeWith_insertWith {f : α → α → α} {start : α}
    (hassoc : ∀ x y z, f (f x y) z = f x (f y z)) (hstart : ∀ x, f start x = x)
    (m other : NameMap α) (name : String) (value : α) :
    m.mergeWith f (other.insertWith f name value) =
      (m.mergeWith f other).adjust start (f · value) name := by
  refine ext_get? fun n => ?_
  rw [get?_adjust, get?_mergeWith, get?_mergeWith, get?_mergeWith, get?_insertWith]
  split
  · rename_i hn
    subst hn
    cases other.get? n <;> cases m.get? n <;> simp [hassoc, hstart]
  · rfl

@[simp] theorem union_empty (m : NameMap α) : m ∪ ∅ = m :=
  mergeWith_empty (fun _ new => new) m

@[simp] theorem empty_union (m : NameMap α) : ∅ ∪ m = m :=
  empty_mergeWith (fun _ new => new) m

/-- Of three values of a name the last one counts. -/
theorem union_assoc (m m' m'' : NameMap α) : m ∪ m' ∪ m'' = m ∪ (m' ∪ m'') :=
  mergeWith_assoc (fun _ _ _ => rfl) m m' m''

/-! ## Maps with changed values -/

/-- The map with every value changed by `f`. -/
def map {β : Type} (f : α → β) (m : NameMap α) : NameMap β where
  entries := m.entries.map fun entry => (entry.1, f entry.2)
  sorted := List.pairwise_map.2 m.sorted

variable {β : Type} (f : α → β)

@[simp] theorem get?_map (m : NameMap α) (name : String) :
    (m.map f).get? name = (m.get? name).map f := by
  obtain ⟨entries, sorted⟩ := m
  simp only [get?, map]
  clear sorted
  induction entries with
  | nil => rfl
  | cons head entries ih =>
    rw [List.map_cons, lookup_cons_eq, lookup_cons_eq, ih]
    split <;> rfl

theorem values_map (m : NameMap α) : (m.map f).values = m.values.map f := by
  simp only [values, map, List.map_map]
  rfl

@[simp] theorem map_empty : (∅ : NameMap α).map f = ∅ :=
  rfl

/-- A change that goes through the combination of values goes through maps that are combined. -/
theorem map_mergeWith {combine : α → α → α} {combine' : β → β → β}
    (h : ∀ x y, f (combine x y) = combine' (f x) (f y)) (m other : NameMap α) :
    (m.mergeWith combine other).map f = (m.map f).mergeWith combine' (other.map f) := by
  refine ext_get? fun name => ?_
  simp only [get?_map, get?_mergeWith]
  cases other.get? name with
  | none => rfl
  | some new => cases m.get? name <;> simp [h]

theorem map_union (m other : NameMap α) : (m ∪ other).map f = m.map f ∪ other.map f :=
  map_mergeWith f (fun _ _ => rfl) m other

theorem map_insertWith {combine : α → α → α} {combine' : β → β → β}
    (h : ∀ x y, f (combine x y) = combine' (f x) (f y)) (name : String) (value : α)
    (m : NameMap α) :
    (m.insertWith combine name value).map f = (m.map f).insertWith combine' name (f value) := by
  refine ext_get? fun n => ?_
  simp only [get?_map, get?_insertWith]
  split
  · cases m.get? name <;> simp [h]
  · rfl

theorem map_ofNames (names : List String) (value : α) :
    (ofNames names value).map f = ofNames names (f value) := by
  refine ext_get? fun name => ?_
  rw [get?_map, get?_ofNames, get?_ofNames]
  split <;> rfl

/-! ## Entries -/

/-- A map has an entry exactly if it has the value for the name. -/
theorem mem_entries_iff {m : NameMap α} {name : String} {value : α} :
    (name, value) ∈ m.entries ↔ m.get? name = some value := by
  obtain ⟨entries, sorted⟩ := m
  simp only [get?]
  induction entries with
  | nil => simp
  | cons head entries ih =>
    obtain ⟨k, v⟩ := head
    rw [List.pairwise_cons] at sorted
    rw [List.mem_cons, ih sorted.2, lookup_cons_eq, Prod.mk.injEq]
    by_cases hname : name = k
    · subst hname
      simp [lookup_eq_none_of_lt sorted.1, eq_comm]
    · simp [hname]

theorem mem_values_iff {m : NameMap α} {value : α} :
    value ∈ m.values ↔ ∃ name, m.get? name = some value := by
  unfold values
  rw [List.mem_map]
  constructor
  · rintro ⟨⟨name, value⟩, h, rfl⟩
    exact ⟨name, mem_entries_iff.1 h⟩
  · rintro ⟨name, h⟩
    exact ⟨(name, value), mem_entries_iff.2 h, rfl⟩

/-! ## Properties of all entries -/

/-- Every entry of a map has the property `P`. -/
def All (P : String → α → Prop) (m : NameMap α) : Prop :=
  ∀ name value, (name, value) ∈ m.entries → P name value

section All

variable {P : String → α → Prop} {m other : NameMap α} {combine : α → α → α}

theorem all_iff_get? : m.All P ↔ ∀ name value, m.get? name = some value → P name value := by
  simp only [All, mem_entries_iff]

theorem All.of_get? (h : m.All P) {name : String} {value : α} (hvalue : m.get? name = some value) :
    P name value :=
  all_iff_get?.1 h name value hvalue

theorem all_empty : (∅ : NameMap α).All P :=
  fun _ _ => nofun

/-- A property that combined values have if both have it holds in merged maps. -/
theorem All.mergeWith (hcombine : ∀ name x y, P name x → P name y → P name (combine x y))
    (h : m.All P) (h' : other.All P) : (m.mergeWith combine other).All P := by
  refine all_iff_get?.2 fun name value hvalue => ?_
  rw [get?_mergeWith] at hvalue
  cases hnew : other.get? name with
  | none =>
    rw [hnew] at hvalue
    exact h.of_get? hvalue
  | some new =>
    rw [hnew] at hvalue
    cases hold : m.get? name with
    | none =>
      rw [hold] at hvalue
      obtain rfl := Option.some.inj hvalue
      exact h'.of_get? hnew
    | some old =>
      rw [hold] at hvalue
      obtain rfl := Option.some.inj hvalue
      exact hcombine name old new (h.of_get? hold) (h'.of_get? hnew)

theorem All.union (h : m.All P) (h' : other.All P) : (m ∪ other).All P :=
  h.mergeWith (fun _ _ _ _ hnew => hnew) h'

theorem All.insertWith (hcombine : ∀ name x y, P name x → P name y → P name (combine x y))
    (h : m.All P) {name : String} {value : α} (hvalue : P name value) :
    (m.insertWith combine name value).All P := by
  refine all_iff_get?.2 fun n v hv => ?_
  rw [get?_insertWith] at hv
  split at hv
  · rename_i hn
    subst hn
    cases hold : m.get? n with
    | none =>
      rw [hold] at hv
      obtain rfl := Option.some.inj hv
      exact hvalue
    | some old =>
      rw [hold] at hv
      obtain rfl := Option.some.inj hv
      exact hcombine n old value (h.of_get? hold) hvalue
  · exact h.of_get? hv

theorem all_ofNames {names : List String} {value : α} (h : ∀ name ∈ names, P name value) :
    (ofNames names value).All P := by
  refine all_iff_get?.2 fun name v hv => ?_
  rw [get?_ofNames] at hv
  split at hv
  · rename_i hname
    obtain rfl := Option.some.inj hv
    exact h name hname
  · cases hv

end All

/-- There is always a name that a map knows nothing of. -/
theorem exists_get?_eq_none (m : NameMap α) : ∃ name, m.get? name = none := by
  obtain ⟨name, hname⟩ := Infinite.exists_notMem_finset (m.entries.map Prod.fst).toFinset
  refine ⟨name, Option.eq_none_iff_forall_ne_some.2 fun value h => hname ?_⟩
  exact List.mem_toFinset.2 (List.mem_map.2 ⟨_, mem_entries_iff.2 h, rfl⟩)

end PolicyLint.NameMap
