import Mathlib.Data.List.Basic
import Mathlib.Data.List.Nodup
import PolicyLint.Rule.Registry

/-!
# Names without repetitions

`FirstPlaces names distinct` says that a list has the names of another one, each once, in the
order in which they first occur there. There is one such list at most (`FirstPlaces.unique`), and
`distinctNames` finds it (`firstPlaces_distinctNames`).
-/

namespace PolicyLint

/-- The names of a list, each once, in the order of their first places. -/
structure FirstPlaces (names distinct : List String) : Prop where
  nodup : distinct.Nodup
  mem_iff : ∀ name, name ∈ distinct ↔ name ∈ names
  inOrder : distinct.Pairwise fun name other => names.idxOf name < names.idxOf other

variable {names distinct distinct' : List String}

theorem FirstPlaces.unique (h : FirstPlaces names distinct) (h' : FirstPlaces names distinct') :
    distinct = distinct' := by
  have hperm : distinct.Perm distinct' := by
    refine (List.perm_ext_iff_of_nodup h.nodup h'.nodup).2 fun name => ?_
    rw [h.mem_iff, h'.mem_iff]
  exact hperm.eq_of_pairwise (fun _ _ _ _ hlt hlt' => absurd hlt (Nat.lt_asymm hlt'))
    h.inOrder h'.inOrder

theorem FirstPlaces.ne_nil (h : FirstPlaces names distinct) (hne : names ≠ []) : distinct ≠ [] := by
  obtain ⟨name, hname⟩ := List.exists_mem_of_ne_nil names hne
  exact List.ne_nil_of_mem ((h.mem_iff name).2 hname)

/-- A new name in front comes first, and is left out of the rest. -/
theorem FirstPlaces.cons (h : FirstPlaces names distinct) (name : String) :
    FirstPlaces (name :: names) (name :: distinct.filter (· != name)) where
  nodup := List.nodup_cons.2 ⟨by simp, h.nodup.filter _⟩
  mem_iff other := by
    rw [List.mem_cons, List.mem_cons, List.mem_filter, h.mem_iff]
    by_cases hother : other = name <;> simp [hother]
  inOrder := by
    have hrest : ∀ other ∈ distinct.filter (· != name),
        (name :: names).idxOf other = names.idxOf other + 1 := by
      intro other hother
      have hne : other ≠ name := by simpa using (List.mem_filter.1 hother).2
      exact List.idxOf_cons_ne names hne.symm
    refine List.pairwise_cons.2 ⟨fun other hother => ?_, ?_⟩
    · rw [List.idxOf_cons_self, hrest other hother]
      exact Nat.succ_pos _
    · refine (h.inOrder.filter _).imp_of_mem fun ha hb hlt => ?_
      rw [hrest _ ha, hrest _ hb]
      exact Nat.succ_lt_succ hlt

theorem firstPlaces_distinctNames (names : List String) :
    FirstPlaces names (distinctNames names) := by
  induction names with
  | nil => exact ⟨.nil, fun _ => Iff.rfl, .nil⟩
  | cons name names ih => exact ih.cons name

/-- A list without repetitions is in that order itself. -/
theorem FirstPlaces.of_nodup (h : names.Nodup) : FirstPlaces names names where
  nodup := h
  mem_iff _ := Iff.rfl
  inOrder := List.pairwise_iff_getElem.2 fun i j hi hj hij => by
    rwa [h.idxOf_getElem i hi, h.idxOf_getElem j hj]

theorem distinctNames_of_nodup (h : names.Nodup) : distinctNames names = names :=
  (firstPlaces_distinctNames names).unique (.of_nodup h)

end PolicyLint
