import Mathlib.Order.Bounds.Basic
import PolicyLint.Proofs.NameMap
import PolicyLint.Proofs.Policy.NameKey

/-!
# Lines and the names they give

A `Row` is a line of a text with the key that stands in it where the keys of policies stand, if
there is one. `Reads s rows s'` says that the lines of the rows, read from the state `s` on,
give the names of their keys and nothing else, and lead to the state `s'`. Where all keys that
begin with `name:` are common ones (`NamesCommonly`), a key for a name is a common key for it.

Main statement : if the rows of a text are read, the line of a name is the first one with a key
for it (`Reads.line?_eq_some_iff`).
-/

namespace PolicyLint.LineIndex

/-- A line with the key in it. -/
structure Row where
  line : List Char
  key : Option (List Char) := none

/-- A key stands in the row with a number, where rows count from 1. -/
def KeyOn (rows : List Row) (key : List Char) (number : Nat) : Prop :=
  ∃ i, number = i + 1 ∧ ∃ line, rows[i]? = some ⟨line, some key⟩

/-- There is one key at most in a row. -/
theorem KeyOn.unique {rows : List Row} {key key' : List Char} {number : Nat}
    (h : KeyOn rows key number) (h' : KeyOn rows key' number) : key = key' := by
  obtain ⟨i, rfl, line, hrow⟩ := h
  obtain ⟨j, hj, line', hrow'⟩ := h'
  obtain rfl : i = j := Nat.succ.inj hj
  rw [hrow] at hrow'
  exact Option.some.inj (Row.mk.inj (Option.some.inj hrow')).2

theorem KeyOn.mem_filterMap {rows : List Row} {key : List Char} {number : Nat}
    (h : KeyOn rows key number) : key ∈ rows.filterMap Row.key := by
  obtain ⟨i, -, line, hrow⟩ := h
  exact List.mem_filterMap.2 ⟨_, List.mem_of_getElem? hrow, rfl⟩

/-- Every key that begins with `name:` is a common one. -/
def NamesCommonly (rows : List Row) : Prop :=
  ∀ key number, KeyOn rows key number → "name:".toList <+: key → ∃ name, CommonKey name key

theorem NamesCommonly.nameKey_iff {rows : List Row} (h : NamesCommonly rows)
    {key name : List Char} {number : Nat} (hkey : KeyOn rows key number) :
    NameKey name key ↔ CommonKey name key := by
  refine ⟨fun hname => ?_, CommonKey.nameKey⟩
  obtain ⟨other, hother⟩ := h key number hkey hname.name_isPrefix
  rwa [hname.unique hother.nameKey]

/-- Reading rows from a state on gives the names of their keys, and leads to another state. -/
inductive Reads : State → List Row → State → Prop
  | nil (s : State) : Reads s [] s
  | cons {s s' s'' : State} {row : Row} {rows : List Row}
    (hline : LineIndex.line s row.line = (s', row.key.bind name?)) (hrows : Reads s' rows s'') :
    Reads s (row :: rows) s''

namespace Reads

theorem append {s s' s'' : State} {rows rows' : List Row} (h : Reads s rows s')
    (h' : Reads s' rows' s'') : Reads s (rows ++ rows') s'' := by
  induction h with
  | nil => exact h'
  | cons hline _ ih => exact .cons hline (ih h')

/-- Rows that leave a state as it is, one by one. -/
theorem of_forall {s : State} {rows : List Row}
    (h : ∀ row ∈ rows, LineIndex.line s row.line = (s, row.key.bind name?)) :
    Reads s rows s := by
  induction rows with
  | nil => exact .nil s
  | cons row rows ih =>
    exact .cons (h row List.mem_cons_self) (ih fun row' hrow' =>
      h row' (List.mem_cons_of_mem row hrow'))

end Reads

/-! ## Names with their numbers -/

theorem namesFrom_cons {s s' : State} {text : List Char} {name : Option (List Char)}
    (hline : line s text = (s', name)) (number : Nat) (lines : List (List Char)) :
    namesFrom s number (text :: lines) =
      (name.map fun name => (String.ofList name, number)).toList ++
        namesFrom s' (number + 1) lines := by
  rw [namesFrom, hline]
  cases name <;> rfl

/-- The names of lines have numbers from that of the first line on, in ascending order. -/
theorem sorted_namesFrom (s : State) (number : Nat) (lines : List (List Char)) :
    (∀ entry ∈ namesFrom s number lines, number ≤ entry.2) ∧
      (namesFrom s number lines).Pairwise fun a b => a.2 < b.2 := by
  induction lines generalizing s number with
  | nil => exact ⟨nofun, .nil⟩
  | cons text lines ih =>
    obtain ⟨⟨s', name⟩, hline⟩ : ∃ result, line s text = result := ⟨_, rfl⟩
    obtain ⟨hle, hsorted⟩ := ih s' (number + 1)
    rw [namesFrom_cons hline]
    cases name with
    | none => exact ⟨fun entry hentry => (Nat.le_succ number).trans (hle entry hentry), hsorted⟩
    | some name =>
      refine ⟨fun entry hentry => ?_, List.pairwise_cons.2 ⟨fun entry hentry => ?_, hsorted⟩⟩
      · rcases List.mem_cons.1 hentry with rfl | hentry
        · exact Nat.le_refl _
        · exact (Nat.le_succ number).trans (hle entry hentry)
      · exact hle entry hentry

/-- The rows that are read give the names of their keys. -/
theorem Reads.mem_namesFrom_iff {s s' : State} {rows : List Row} (h : Reads s rows s')
    {start number : Nat} {name : String} :
    (name, number) ∈ namesFrom s start (rows.map Row.line) ↔
      ∃ i, number = start + i ∧ ∃ line key, rows[i]? = some ⟨line, some key⟩ ∧
        name? key = some name.toList := by
  induction h generalizing start with
  | nil =>
    refine iff_of_false nofun ?_
    rintro ⟨i, -, line, key, hrow, -⟩
    simp at hrow
  | @cons s s' s'' row rows hline hrows ih =>
    rw [List.map_cons, namesFrom_cons hline, List.mem_append, ih]
    constructor
    · rintro (hfirst | ⟨i, rfl, line, key, hrow, hname⟩)
      · obtain ⟨name', hname, hentry⟩ := Option.map_eq_some_iff.1 (Option.mem_toList.1 hfirst)
        obtain ⟨key, hkey, hname⟩ := Option.bind_eq_some_iff.1 hname
        obtain ⟨rfl, rfl⟩ := Prod.mk.inj hentry
        refine ⟨0, rfl, row.line, key, ?_, by rw [hname, String.toList_ofList]⟩
        rw [← hkey]
        rfl
      · exact ⟨i + 1, by omega, line, key, hrow, hname⟩
    · rintro ⟨i, rfl, line, key, hrow, hname⟩
      cases i with
      | zero =>
        obtain rfl : row = ⟨line, some key⟩ := by simpa using hrow
        refine .inl (Option.mem_toList.2 (Option.map_eq_some_iff.2 ⟨name.toList, hname, ?_⟩))
        rw [String.ofList_toList, Nat.add_zero]
      | succ i => exact .inr ⟨i, by omega, line, key, hrow, hname⟩

/-! ## The first line of a name -/

theorem sublist_firstNames (names : List (String × Nat)) : (firstNames names).Sublist names := by
  induction names with
  | nil => exact .slnil
  | cons entry names ih => exact (List.filter_sublist.trans ih).cons_cons entry

theorem mem_of_mem_firstNames {names : List (String × Nat)} {entry : String × Nat}
    (h : entry ∈ firstNames names) : entry ∈ names :=
  (sublist_firstNames names).subset h

theorem lookup_firstNames (names : List (String × Nat)) (name : String) :
    (firstNames names).lookup name = names.lookup name := by
  have hfilter : ∀ (other : String) (names : List (String × Nat)), name ≠ other →
      (names.filter fun entry => entry.1 != other).lookup name = names.lookup name := by
    intro other names hne
    induction names with
    | nil => rfl
    | cons entry names ih =>
      obtain ⟨n, number⟩ := entry
      rw [List.filter_cons]
      split
      · rw [NameMap.lookup_cons_eq, NameMap.lookup_cons_eq, ih]
      · rename_i hn
        obtain rfl : n = other := by simpa using hn
        rw [NameMap.lookup_cons_eq, if_neg hne, ih]
  induction names with
  | nil => rfl
  | cons entry names ih =>
    obtain ⟨n, number⟩ := entry
    rw [firstNames, NameMap.lookup_cons_eq, NameMap.lookup_cons_eq]
    split
    · rfl
    · rename_i hne
      rw [hfilter n _ hne, ih]

/-- In ascending order, the first number of a name is the least. -/
theorem lookup_eq_some_iff_isLeast {names : List (String × Nat)}
    (hsorted : names.Pairwise fun a b => a.2 < b.2) {name : String} {number : Nat} :
    names.lookup name = some number ↔ IsLeast {n | (name, n) ∈ names} number := by
  induction names with
  | nil => exact iff_of_false nofun fun h => absurd h.1 List.not_mem_nil
  | cons entry names ih =>
    obtain ⟨other, first⟩ := entry
    rw [List.pairwise_cons] at hsorted
    rw [NameMap.lookup_cons_eq]
    split
    · rename_i hname
      subst hname
      have hleast : IsLeast {n | (name, n) ∈ (name, first) :: names} first := by
        refine ⟨List.mem_cons_self, fun n hn => ?_⟩
        rcases List.mem_cons.1 hn with h | h
        · exact (Prod.mk.inj h).2.ge
        · exact (hsorted.1 _ h).le
      rw [Option.some_inj]
      exact ⟨fun h => h ▸ hleast, fun h => hleast.unique h⟩
    · rename_i hne
      rw [ih hsorted.2]
      have hset : {n | (name, n) ∈ (other, first) :: names} = {n | (name, n) ∈ names} := by
        ext n
        simp [hne]
      rw [hset]

/-- The line of a name in a text is the least that gives it. -/
theorem line?_ofText_eq_some_iff {file text name : String} {number : Nat} :
    (ofText file text).line? name = some number ↔
      IsLeast {n | (name, n) ∈ names text} number := by
  rw [line?, ofText, lookup_firstNames]
  exact lookup_eq_some_iff_isLeast (sorted_namesFrom _ _ _).2

/-- If the rows of a text are read, the line of a name is the first that has a key for it. -/
theorem Reads.line?_eq_some_iff {text : String} {rows : List Row} {s : State}
    (htext : Text.lines text.toList = rows.map Row.line) (h : Reads {} rows s)
    {file name : String} {number : Nat} :
    (ofText file text).line? name = some number ↔
      IsLeast {n | ∃ key, KeyOn rows key n ∧ NameKey name.toList key} number := by
  have hset : {n | (name, n) ∈ names text} =
      {n | ∃ key, KeyOn rows key n ∧ NameKey name.toList key} := by
    ext n
    show (name, n) ∈ namesFrom {} 1 (Text.lines text.toList) ↔ _
    rw [htext, h.mem_namesFrom_iff]
    constructor
    · rintro ⟨i, rfl, line, key, hrow, hname⟩
      exact ⟨key, ⟨i, Nat.add_comm 1 i, line, hrow⟩, name?_eq_some_iff.1 hname⟩
    · rintro ⟨key, ⟨i, rfl, line, hrow⟩, hname⟩
      exact ⟨i, Nat.add_comm i 1, line, key, hrow, name?_eq_some_iff.2 hname⟩
  rw [line?_ofText_eq_some_iff, hset]

end PolicyLint.LineIndex
