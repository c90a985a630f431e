/-!
# Finite maps from names

`NameMap α` holds a value for each of finitely many names, in the order of the names. It grows
by `insertWith`, which combines a value with the one already there, and by `mergeWith`, which
does so for every entry of another map. What is there may also be changed in place (`adjust`).

Main statements : two maps are equal if `get?` tells no difference (`NameMap.ext_get?`), and
what `get?` says of the maps that the operations make (`get?_insertWith`, `get?_mergeWith`).
-/

namespace PolicyLint

variable {α : Type}

/-- Entries in the order of their names, each name once. -/
structure NameMap (α : Type) where
  entries : List (String × α) := []
  sorted : entries.Pairwise fun a b => a.1 < b.1 := by exact .nil

namespace NameMap

instance : EmptyCollection (NameMap α) :=
  ⟨{}⟩

instance : Inhabited (NameMap α) :=
  ⟨∅⟩

/-- The value of a name. -/
def get? (m : NameMap α) (name : String) : Option α :=
  m.entries.lookup name

/-- The values, in the order of their names. -/
def values (m : NameMap α) : List α :=
  m.entries.map Prod.snd

/-! ## Insertion -/

/-- The entries with `f old value` for `name`, or with `value` if the name is new. -/
def insertEntry (f : α → α → α) (name : String) (value : α) :
    List (String × α) → List (String × α)
  | [] => [(name, value)]
  | (n, old) :: entries =>
    if name < n then (name, value) :: (n, old) :: entries
    else if name = n then (n, f old value) :: entries
    else (n, old) :: insertEntry f name value entries

theorem fst_mem_of_mem_insertEntry {f : α → α → α} {name : String} {value : α}
    {entries : List (String × α)} {e : String × α}
    (h : e ∈ insertEntry f name value entries) :
    e.1 = name ∨ e.1 ∈ entries.map Prod.fst := by
  induction entries with
  | nil => simp_all [insertEntry]
  | cons head entries ih =>
    obtain ⟨n, old⟩ := head
    rw [insertEntry] at h
    split at h
    · simp only [List.mem_cons] at h
      rcases h with rfl | rfl | h
      · exact .inl rfl
      · exact .inr (by simp)
      · exact .inr (by simpa using .inr ⟨e.2, h⟩)
    · split at h
      · rename_i hn
        simp only [List.mem_cons] at h
        rcases h with rfl | h
        · exact .inl hn.symm
        · exact .inr (by simpa using .inr ⟨e.2, h⟩)
      · simp only [List.mem_cons] at h
        rcases h with rfl | h
        · exact .inr (by simp)
        · rcases ih h with h | h
          · exact .inl h
          · exact .inr (List.mem_cons_of_mem _ h)

theorem sorted_insertEntry {f : α → α → α} {name : String} {value : α}
    {entries : List (String × α)} (h : entries.Pairwise fun a b => a.1 < b.1) :
    (insertEntry f name value entries).Pairwise fun a b => a.1 < b.1 := by
  induction entries with
  | nil => simp [insertEntry]
  | cons head entries ih =>
    obtain ⟨n, old⟩ := head
    rw [List.pairwise_cons] at h
    rw [insertEntry]
    split
    · rename_i hn
      refine List.pairwise_cons.2 ⟨fun e he => ?_, List.pairwise_cons.2 h⟩
      rcases List.mem_cons.1 he with rfl | he
      · exact hn
      · exact String.lt_trans hn (h.1 e he)
    · split
      · exact List.pairwise_cons.2 ⟨h.1, h.2⟩
      · rename_i hlt hne
        refine List.pairwise_cons.2 ⟨fun e he => ?_, ih h.2⟩
        rcases fst_mem_of_mem_insertEntry he with he | he
        · rw [he]
          exact Decidable.byContradiction fun hn =>
            hne (String.le_antisymm (String.not_lt.1 hn) (String.not_lt.1 hlt))
        · obtain ⟨e', he', hee⟩ := List.mem_map.1 he
          rw [← hee]
          exact h.1 e' he'

/-- The map with `f old value` for `name`, or with `value` if the name is new. -/
def insertWith (f : α → α → α) (name : String) (value : α) (m : NameMap α) : NameMap α :=
  ⟨insertEntry f name value m.entries, sorted_insertEntry m.sorted⟩

/-- The map with `value` for `name`, whatever it was before. -/
def insert (name : String) (value : α) (m : NameMap α) : NameMap α :=
  m.insertWith (fun _ new => new) name value

/-- The map with `value` for every name in a list, whatever it was before. -/
def insertNames (names : List String) (value : α) (m : NameMap α) : NameMap α :=
  names.foldl (fun m name => m.insert name value) m

/-- The map with the value for `name` changed by `f`. That of a new name is `start` before. -/
def adjust (start : α) (f : α → α) (name : String) (m : NameMap α) : NameMap α :=
  m.insertWith (fun old _ => f old) name (f start)

/-- The map `m` with the entries of `other`; where both have a value, `f` combines them. -/
def mergeWith (f : α → α → α) (m other : NameMap α) : NameMap α :=
  other.entries.foldl (fun m (name, value) => m.insertWith f name value) m

/-- The map `m` with the entries of `other`, which win over those of `m`. -/
def union (m other : NameMap α) : NameMap α :=
  m.mergeWith (fun _ new => new) other

instance : Union (NameMap α) :=
  ⟨union⟩

/-! ## What `get?` says -/

theorem lookup_cons_eq (k n : String) (value : α) (entries : List (String × α)) :
    ((k, value) :: entries).lookup n = if n = k then some value else entries.lookup n := by
  by_cases h : n = k
  · simp [h]
  · have hb : (n == k) = false := by simpa using h
    simp [List.lookup_cons, h, hb]

/-- A name before all others has no value. -/
theorem lookup_eq_none_of_lt {name : String} {entries : List (String × α)}
    (h : ∀ e ∈ entries, name < e.1) : entries.lookup name = none := by
  rw [List.lookup_eq_none_iff]
  intro e he
  simpa using fun hk : name = e.1 => String.lt_irrefl name (by simpa [← hk] using h e he)

theorem lookup_insertEntry (f : α → α → α) (name : String) (value : α)
    {entries : List (String × α)} (h : entries.Pairwise fun a b => a.1 < b.1) (n : String) :
    (insertEntry f name value entries).lookup n =
      if n = name then some ((entries.lookup name).elim value (f · value))
      else entries.lookup n := by
  induction entries with
  | nil => simp [insertEntry, lookup_cons_eq]
  | cons head entries ih =>
    obtain ⟨k, old⟩ := head
    rw [List.pairwise_cons] at h
    rw [insertEntry]
    split
    · rename_i hlt
      have hnone : ((k, old) :: entries).lookup name = none := lookup_eq_none_of_lt fun e he => by
        rcases List.mem_cons.1 he with rfl | he
        · exact hlt
        · exact String.lt_trans hlt (h.1 e he)
      rw [lookup_cons_eq, hnone]
      rfl
    · split
      · rename_i hk
        subst hk
        by_cases hn : n = name <;> simp [lookup_cons_eq, hn]
      · rename_i hne
        by_cases hn : n = name
        · subst hn
          simp [lookup_cons_eq, hne, ih h.2]
        · simp [lookup_cons_eq, hn, ih h.2]

theorem get?_insertWith (f : α → α → α) (name : String) (value : α) (m : NameMap α)
    (n : String) :
    (m.insertWith f name value).get? n =
      if n = name then some ((m.get? name).elim value (f · value)) else m.get? n :=
  lookup_insertEntry f name value m.sorted n

@[simp] theorem get?_empty (n : String) : (∅ : NameMap α).get? n = none :=
  rfl

theorem get?_mergeWith (f : α → α → α) (m other : NameMap α) (n : String) :
    (m.mergeWith f other).get? n =
      (other.get? n).elim (m.get? n) fun new => some ((m.get? n).elim new (f · new)) := by
  obtain ⟨entries, sorted⟩ := other
  simp only [mergeWith, get?]
  induction entries generalizing m with
  | nil => rfl
  | cons head entries ih =>
    obtain ⟨k, value⟩ := head
    rw [List.pairwise_cons] at sorted
    rw [List.foldl_cons, ih _ sorted.2, lookup_cons_eq]
    have hget : ((m.insertWith f k value).entries).lookup n =
        if n = k then some ((m.get? k).elim value (f · value)) else m.get? n :=
      get?_insertWith f k value m n
    by_cases hn : n = k
    · subst hn
      simp [hget, lookup_eq_none_of_lt sorted.1, get?]
    · simp [hget, hn, get?]

/-- Two maps that agree on every name are equal. -/
theorem ext_get? {m₁ m₂ : NameMap α} (h : ∀ n, m₁.get? n = m₂.get? n) : m₁ = m₂ := by
  obtain ⟨entries₁, sorted₁⟩ := m₁
  obtain ⟨entries₂, sorted₂⟩ := m₂
  simp only [get?] at h
  congr
  induction entries₁ generalizing entries₂ with
  | nil =>
    cases entries₂ with
    | nil => rfl
    | cons head entries₂ =>
      obtain ⟨k₂, v₂⟩ := head
      simpa [lookup_cons_eq] using h k₂
  | cons head₁ entries₁ ih =>
    obtain ⟨k₁, v₁⟩ := head₁
    cases entries₂ with
    | nil => simpa [lookup_cons_eq] using h k₁
    | cons head₂ entries₂ =>
      obtain ⟨k₂, v₂⟩ := head₂
      rw [List.pairwise_cons] at sorted₁ sorted₂
      have hk : k₁ = k₂ := by
        refine Decidable.byContradiction fun hne => ?_
        by_cases hlt : k₁ < k₂
        · have hnone : ((k₂, v₂) :: entries₂).lookup k₁ = none :=
            lookup_eq_none_of_lt fun e he => by
              rcases List.mem_cons.1 he with rfl | he
              · exact hlt
              · exact String.lt_trans hlt (sorted₂.1 e he)
          simpa [hnone, lookup_cons_eq] using h k₁
        · have hgt : k₂ < k₁ := Decidable.byContradiction fun hn =>
            hne (String.le_antisymm (String.not_lt.1 hn) (String.not_lt.1 hlt))
          have hnone : ((k₁, v₁) :: entries₁).lookup k₂ = none :=
            lookup_eq_none_of_lt fun e he => by
              rcases List.mem_cons.1 he with rfl | he
              · exact hgt
              · exact String.lt_trans hgt (sorted₁.1 e he)
          simpa [hnone, lookup_cons_eq] using (h k₂).symm
      subst hk
      have hv : v₁ = v₂ := by simpa [lookup_cons_eq] using h k₁
      subst hv
      congr 1
      refine ih sorted₁.2 entries₂ sorted₂.2 fun n => ?_
      by_cases hn : n = k₁
      · subst hn
        rw [lookup_eq_none_of_lt sorted₁.1, lookup_eq_none_of_lt sorted₂.1]
      · simpa [lookup_cons_eq, hn] using h n

end NameMap

end PolicyLint
