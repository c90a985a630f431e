import Mathlib.Logic.Basic
import PolicyLint.Yaml.Tree

/-!
# Records in documents

A record is a mapping whose keys are known and stand once each (`Tree.fields?_eq_some_iff`), so
that a look-up by name finds every entry (`lookup_eq_some_of_mem`). A list in a field is read if
all of its items are, whatever stands around it (`Tree.exists_of_listField?`).
-/

namespace PolicyLint.Yaml

/-- A name that stands once leads to its value. -/
theorem lookup_eq_some_of_mem {α : Type} {fields : List (String × α)} {name : String} {value : α}
    (hnodup : (fields.map Prod.fst).Nodup) (h : (name, value) ∈ fields) :
    fields.lookup name = some value := by
  obtain ⟨before, after, rfl⟩ := List.append_of_mem h
  refine List.lookup_eq_some_iff.2 ⟨before, after, rfl, fun field hfield => ?_⟩
  rw [List.map_append, List.map_cons] at hnodup
  have hne := (List.nodup_append.1 hnodup).2.2 field.1 (List.mem_map_of_mem hfield) name
    List.mem_cons_self
  simpa using hne.symm

/-- What is read of a list holds what is read of each of its items. -/
theorem exists_of_mapM_eq_some {α β : Type} {read? : α → Option β} {xs : List α} {ys : List β}
    (h : xs.mapM read? = some ys) {x : α} (hx : x ∈ xs) : ∃ y, read? x = some y := by
  induction xs generalizing ys with
  | nil => cases hx
  | cons first xs ih =>
    rw [List.mapM_cons] at h
    simp only [Option.bind_eq_bind, Option.bind_eq_some_iff] at h
    obtain ⟨y, hy, rest, hrest, -⟩ := h
    rcases List.mem_cons.1 hx with rfl | hx
    · exact ⟨y, hy⟩
    · exact ih hrest hx

/-! ## Keys that are texts -/

theorem Atom.float?_ne_text (text value : String) : float? text ≠ some (.text value) := by
  intro h
  rw [float?] at h
  obtain ⟨-, h⟩ | ⟨-, h⟩ := ite_eq_iff.1 h
  · cases h
  · obtain ⟨number, -, hnumber⟩ := Option.map_eq_some_iff.1 h
    cases hnumber

theorem Atom.number?_ne_text (text value : String) : number? text ≠ some (some (.text value)) := by
  have hfloat : (float? text).map some ≠ some (some (.text value)) := by
    intro h
    obtain ⟨atom, hatom, h⟩ := Option.map_eq_some_iff.1 h
    obtain rfl := Option.some.inj h
    exact float?_ne_text text value hatom
  unfold number?
  split
  · split
    · nofun
    split
    · nofun
    · exact hfloat
  · split
    · nofun
    · exact hfloat

theorem Atom.eq_of_ofPlain? {text value : String} (h : ofPlain? text = some (.text value)) :
    text = value := by
  unfold ofPlain? at h
  split at h
  · cases h
  split at h
  · cases h
  cases hnumber : number? text with
  | none =>
    rw [hnumber] at h
    exact Atom.text.inj (Option.some.inj h)
  | some atom =>
    rw [hnumber, Option.getD_some] at h
    subst h
    exact absurd hnumber (number?_ne_text text value)

/-- A scalar whose value is a text has that text. -/
theorem Scalar.text_eq_of_atom? {content : Scalar} {value : String}
    (h : content.atom? = some (.text value)) : content.text = value := by
  unfold atom? at h
  split at h
  · split at h
    · exact Atom.eq_of_ofPlain? h
    · exact Atom.text.inj (Option.some.inj h)
  · obtain ⟨_, -, h⟩ := Option.map_eq_some_iff.1 h
    cases h
  · simp only [Atom.ofInteger?, Option.bind_eq_bind, Option.bind_eq_some_iff] at h
    obtain ⟨n, -, h⟩ := h
    split at h <;> cases h
  · exact absurd h (Atom.float?_ne_text _ _)
  · split at h <;> cases h
  · cases h
  · exact Atom.text.inj (Option.some.inj h)

/-! ## Fields -/

namespace Tree

variable {tree : Tree} {names : List String} {fields : List (String × Tree)}

theorem fields?_eq_some_iff : tree.fields? names = some fields ↔
    ∃ entries, tree.entries? = some entries ∧
      fields = entries.map (fun (key, value) => (key.text, value)) ∧
      (∀ field ∈ fields, field.1 ∈ names) ∧ (fields.map Prod.fst).Nodup := by
  simp only [fields?, Option.bind_eq_bind, Option.bind_eq_some_iff]
  refine exists_congr fun entries => and_congr_right fun _ => ?_
  constructor
  · intro h
    split at h
    · rename_i hfields
      obtain rfl := Option.some.inj h
      simp only [Bool.and_eq_true, List.all_eq_true, List.contains_iff_mem,
        decide_eq_true_iff] at hfields
      exact ⟨rfl, hfields⟩
    · cases h
  · rintro ⟨rfl, hnames, hnodup⟩
    refine if_pos ?_
    simp only [Bool.and_eq_true, List.all_eq_true, List.contains_iff_mem, decide_eq_true_iff]
    exact ⟨hnames, hnodup⟩

theorem nodup_of_fields? (h : tree.fields? names = some fields) :
    (fields.map Prod.fst).Nodup := by
  obtain ⟨_, -, -, -, hnodup⟩ := fields?_eq_some_iff.1 h
  exact hnodup

/-- A scalar has no fields. -/
theorem fields_eq_nil_of_scalar {content : Scalar}
    (h : (scalar content).fields? names = some fields) : fields = [] := by
  obtain ⟨entries, hentries, rfl, -⟩ := fields?_eq_some_iff.1 h
  change (if (scalar content).isEmpty then some [] else none) = some entries at hentries
  split at hentries
  · obtain rfl := Option.some.inj hentries
    rfl
  · cases hentries

/-- Every item of a list in a field is read. -/
theorem exists_of_listField? {α : Type} {read? : Tree → Option α} {name : String} {ys : List α}
    (h : listField? read? name fields = some ys) (hnodup : (fields.map Prod.fst).Nodup)
    {tag : Tag} {items : List Tree} (hlist : (name, sequence tag items) ∈ fields)
    {item : Tree} (hitem : item ∈ items) : ∃ y, read? item = some y := by
  rw [listField?, lookup_eq_some_of_mem hnodup hlist] at h
  exact exists_of_mapM_eq_some h hitem

end Tree

end PolicyLint.Yaml
