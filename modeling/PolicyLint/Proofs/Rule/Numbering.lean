import Mathlib.Data.List.Range
import PolicyLint.Rule.Registry

/-!
# The numbers that a step uses

Steps that number rules use numbers one after the other, from the one that the registry has
next. `Numbers step post` says that of a step, whatever comes of it, and that a result of the
step agrees by `post` with the numbers used.

Numbers are not bounded. A counter of 64 bits shows the rest of a number by `2 ^ 64`
(`Rule.word`, `Registry.word`), and goes on from 0 after the last of these.
-/

namespace PolicyLint

/-! ## Numbers on a counter -/

/-- The number of a rule as the 64 bits of a counter show it. -/
def Rule.word (rule : Rule) : UInt64 :=
  .ofNat rule.id

/-- The number of the next rule as the 64 bits of a counter show it. -/
def Registry.word (registry : Registry) : UInt64 :=
  .ofNat registry.next

theorem Registry.word_mk_add (next n : Nat) : word ⟨next + n⟩ = word ⟨next⟩ + .ofNat n :=
  UInt64.ofNat_add next n

/-- The next numbers on a counter, which may go on from 0 between any two of them. -/
theorem Registry.map_ofNat_range' (registry : Registry) (n : Nat) :
    (List.range' registry.next n).map UInt64.ofNat =
      (List.range n).map fun i => registry.word + .ofNat i := by
  rw [List.range'_eq_map_range, List.map_map]
  exact List.map_congr_left fun i _ => word_mk_add registry.next i

/-! ## Steps -/

namespace Construction

variable {ε α : Type}

/-- A step uses the next numbers, and what it gives agrees with them. -/
def Numbers (step : Construction ε α) (post : List Nat → α → Prop) : Prop :=
  ∀ registry, ∃ n, (step.run.run registry).2.next = registry.next + n ∧
    ∀ value, (step.run.run registry).1 = .ok value → post (List.range' registry.next n) value

namespace Numbers

variable {step : Construction ε α} {post : List Nat → α → Prop}

theorem pure {value : α} (h : post [] value) : Numbers (pure value : Construction ε α) post := by
  refine fun registry => ⟨0, rfl, fun value' hvalue => ?_⟩
  obtain rfl := Except.ok.inj hvalue
  exact h

theorem throw (error : ε) : Numbers (throw error : Construction ε α) post :=
  fun _ => ⟨0, rfl, fun _ hvalue => nomatch hvalue⟩

/-- What holds of the next numbers holds of the result. -/
theorem of_run (h : Numbers step post) {registry registry' : Registry} {value : α}
    (hrun : step.run.run registry = (.ok value, registry')) :
    ∃ n, registry'.next = registry.next + n ∧ post (List.range' registry.next n) value := by
  obtain ⟨n, hn, hpost⟩ := h registry
  rw [hrun] at hn hpost
  exact ⟨n, hn, hpost value rfl⟩

end Numbers

end Construction

end PolicyLint
