import PolicyLint.Yaml.Tree

/-!
# The keys of a document

Of a document only the entries are read whose keys are of some class. `Node.rootKeys?` lists
what the keys of its outermost mapping stand for, and if none of them is of the class, this
alone decides what is read : nothing, if all keys are scalars, and else the document has no tree
(`Tree.ofNode?_of_unread`). No other node is looked at, so that no alias is one too many
(`Node.length_le_sizeEntries`).
-/

namespace PolicyLint.Yaml

namespace Node

/-- The scalar that a key stands for, if it stands for one. -/
def keyScalar? (table : List (Nat × Node)) (key : Node) : Option Scalar :=
  match key.target? table with
  | some (.scalar _ content) => some content
  | _ => none

/-- The texts of the scalars that the keys of a document stand for, if it is a mapping. -/
def rootKeys? (root : Node) : Option (List (Option String)) :=
  match root with
  | .mapping _ _ entries =>
    some (entries.map fun (key, _) => (key.keyScalar? root.anchored).map Scalar.text)
  | _ => none

theorem size_pos (node : Node) : 0 < node.size := by
  cases node <;> simp only [size] <;> omega

/-- A mapping has no more entries than it has marks. -/
theorem length_le_sizeEntries (entries : List (Node × Node)) :
    entries.length ≤ sizeEntries entries := by
  induction entries with
  | nil => exact Nat.le_refl 0
  | cons entry entries ih =>
    have hkey := size_pos entry.1
    rw [List.length_cons, sizeEntries]
    omega

end Node

namespace Tree

variable (table : List (Nat × Node)) {left : Nat}

/-- Following a node takes one alias at most. -/
theorem exists_run_follow (node : Node) (h : 0 < left) : ∃ rest, left ≤ rest + 1 ∧
    (follow table node).run left = (node.target? table).map fun target => (target, rest) := by
  unfold follow
  cases node with
  | reference n =>
    cases left with
    | zero => cases h
    | succ rest =>
      refine ⟨rest, Nat.le_refl _, ?_⟩
      cases (Node.reference n).target? table <;> rfl
  | scalar | sequence | mapping => exact ⟨left, Nat.le_succ left, rfl⟩

theorem exists_run_expandKey (key : Node) (h : 0 < left) : ∃ rest, left ≤ rest + 1 ∧
    (expandKey table key).run left =
      (key.keyScalar? table).map fun content => (content, rest) := by
  obtain ⟨rest, hrest, hfollow⟩ := exists_run_follow table key h
  refine ⟨rest, hrest, ?_⟩
  rw [expandKey, StateT.run_bind, hfollow, Node.keyScalar?]
  cases key.target? table with
  | none => rfl
  | some target => cases target <;> rfl

variable {table}

/-- Of an entry that is not read, only the key is looked at. -/
theorem exists_run_unread { isRead : String → Bool} {key : Node} (value : Node)
    (hunread : ∀ content, key.keyScalar? table = some content → isRead content.text = false)
    (h : 0 < left) : ∃ rest, left ≤ rest + 1 ∧
      (do
        let key ← expandKey table key
        if isRead key.text then
          let value ← expand table (maxDepth - 1) value
          return some (key, value)
        else return none : Expansion (Option (Scalar × Tree))).run left =
      (key.keyScalar? table).map fun _ => (none, rest) := by
  obtain ⟨rest, hrest, hkey⟩ := exists_run_expandKey table key h
  refine ⟨rest, hrest, ?_⟩
  rw [StateT.run_bind, hkey]
  cases hscalar : key.keyScalar? table with
  | none => rfl
  | some content =>
    simp only [Option.map_some, Option.bind_eq_bind, Option.bind_some, hunread content hscalar]
    rfl

/-- Steps that take one alias at most and keep no entry go through, or fail at a key that is no
scalar. -/
theorem run_filterMapM_of_unread {α : Type} {entries : List (Node × Node)}
    {step : Node × Node → Expansion (Option α)}
    (hstep : ∀ entry ∈ entries, ∀ left, 0 < left → ∃ rest, left ≤ rest + 1 ∧
      (step entry).run left = (entry.1.keyScalar? table).map fun _ => (none, rest))
    (h : entries.length ≤ left) :
    (∃ rest, (entries.filterMapM step).run left = some ([], rest)) ∧
        (∀ entry ∈ entries, entry.1.keyScalar? table ≠ none) ∨
      (entries.filterMapM step).run left = none ∧
        ∃ entry ∈ entries, entry.1.keyScalar? table = none := by
  induction entries generalizing left with
  | nil => exact .inl ⟨⟨left, rfl⟩, List.forall_mem_nil _⟩
  | cons entry entries ih =>
    obtain ⟨hentry, hentries⟩ := List.forall_mem_cons.1 hstep
    rw [List.length_cons] at h
    obtain ⟨next, hnext, hrun⟩ := hentry left (by omega)
    rw [List.filterMapM_cons, StateT.run_bind, hrun]
    cases hscalar : entry.1.keyScalar? table with
    | none => exact .inr ⟨rfl, entry, List.mem_cons_self, hscalar⟩
    | some content =>
      obtain ⟨hrest, hscalars⟩ | ⟨hrest, other, hother, hnone⟩ := ih hentries (by omega : _ ≤ next)
      · exact .inl ⟨hrest, List.forall_mem_cons.2 ⟨by simp [hscalar], hscalars⟩⟩
      · exact .inr ⟨hrest, other, List.mem_cons_of_mem _ hother, hnone⟩

/-- If no entry of a document is read, nothing is left of it; or it has no tree, since some key
is no scalar. -/
theorem ofNode?_of_unread { isRead : String → Bool} {root : Node} {keys : List (Option String)}
    (hkeys : root.rootKeys? = some keys) (hunread : ∀ key, some key ∈ keys → isRead key = false) :
    (∃ tag, ofNode? isRead root = some (.mapping tag [])) ∧ none ∉ keys ∨
      ofNode? isRead root = none ∧ none ∈ keys := by
  unfold Node.rootKeys? at hkeys
  split at hkeys
  · rename_i anchor tag entries
    obtain rfl := Option.some.inj hkeys
    have hlength : entries.length ≤ aliasesPerMark * (Node.mapping anchor tag entries).size := by
      have hle := Node.length_le_sizeEntries entries
      rw [aliasesPerMark, Node.size]
      omega
    have hread : ∀ entry ∈ entries, ∀ content,
        entry.1.keyScalar? (Node.mapping anchor tag entries).anchored = some content →
        isRead content.text = false := by
      intro entry hentry content hscalar
      refine hunread content.text (List.mem_map.2 ⟨entry, hentry, ?_⟩)
      exact congrArg (Option.map Scalar.text) hscalar
    have hrun := run_filterMapM_of_unread (fun entry hentry _ hleft =>
      exists_run_unread entry.2 (hread entry hentry) hleft) hlength
    rw [ofNode?, expandRoot, StateT.run'_eq, StateT.run_bind]
    obtain ⟨⟨rest, hrun⟩, hscalars⟩ | ⟨hrun, other, hother, hnone⟩ := hrun
    · refine .inl ⟨⟨tag, by rw [hrun]; rfl⟩, fun hmem => ?_⟩
      obtain ⟨entry, hentry, hnone⟩ := List.mem_map.1 hmem
      exact hscalars entry hentry (Option.map_eq_none_iff.1 hnone)
    · refine .inr ⟨by rw [hrun]; rfl, List.mem_map.2 ⟨other, hother, ?_⟩⟩
      exact congrArg (Option.map Scalar.text) hnone
  · cases hkeys

end Tree

end PolicyLint.Yaml
