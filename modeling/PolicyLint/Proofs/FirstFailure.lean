import Mathlib.Data.List.Forall2

/-!
# Steps up to the first failure

Steps that are taken in order end at the first one that fails. `Passes fails steps` says that
none does, and `FailsAfter fails steps done error` that the first one to fail comes after those
in `done`, with an error. A traversal of a list by a function that may fail is the case where
the steps are the items (`mapM_eq_ok_iff`, `mapM_eq_error_iff`).
-/

namespace PolicyLint

variable {σ ε α β : Type} {fails : σ → ε → Prop} {steps more done : List σ} {error : ε}

/-- No step fails. -/
def Passes (fails : σ → ε → Prop) (steps : List σ) : Prop :=
  ∀ step ∈ steps, ∀ error, ¬fails step error

/-- The step after those in `done` is the first to fail. -/
def FailsAfter (fails : σ → ε → Prop) (steps done : List σ) (error : ε) : Prop :=
  ∃ step later, steps = done ++ step :: later ∧ Passes fails done ∧ fails step error

theorem passes_nil : Passes fails [] :=
  nofun

theorem passes_singleton_iff {step : σ} : Passes fails [step] ↔ ∀ error, ¬fails step error :=
  List.forall_mem_singleton

theorem Passes.append (h : Passes fails steps) (hmore : Passes fails more) :
    Passes fails (steps ++ more) := by
  intro step hmem
  rcases List.mem_append.1 hmem with hmem | hmem
  · exact h step hmem
  · exact hmore step hmem

theorem FailsAfter.of_head {step : σ} (h : fails step error) (later : List σ) :
    FailsAfter fails (step :: later) [] error :=
  ⟨step, later, rfl, passes_nil, h⟩

theorem FailsAfter.append_right (h : FailsAfter fails steps done error) (more : List σ) :
    FailsAfter fails (steps ++ more) done error := by
  obtain ⟨step, later, rfl, hdone, hfails⟩ := h
  exact ⟨step, later ++ more, by simp, hdone, hfails⟩

theorem Passes.failsAfter_append (hpass : Passes fails steps)
    (h : FailsAfter fails more done error) :
    FailsAfter fails (steps ++ more) (steps ++ done) error := by
  obtain ⟨step, later, rfl, hdone, hfails⟩ := h
  exact ⟨step, later, (List.append_assoc _ _ _).symm, hpass.append hdone, hfails⟩

theorem FailsAfter.not_passes (h : FailsAfter fails steps done error) : ¬Passes fails steps := by
  obtain ⟨step, later, rfl, -, hfails⟩ := h
  exact fun hpass => hpass step List.mem_append_cons_self error hfails

/-- The first of some steps fails, or it does not and some of the others is the first to. -/
theorem exists_failsAfter_cons_iff {step : σ} :
    (∃ done, FailsAfter fails (step :: steps) done error) ↔
      fails step error ∨
        (∀ error, ¬fails step error) ∧ ∃ done, FailsAfter fails steps done error := by
  constructor
  · rintro ⟨done, step', later, hsteps, hdone, hfails⟩
    cases done with
    | nil =>
      obtain ⟨rfl, rfl⟩ := List.cons.inj hsteps
      exact .inl hfails
    | cons first done =>
      obtain ⟨rfl, rfl⟩ := List.cons.inj hsteps
      exact .inr ⟨hdone step List.mem_cons_self, done, step', later, rfl,
        fun other hother => hdone other (List.mem_cons_of_mem _ hother), hfails⟩
  · rintro (hfails | ⟨hpass, done, hfails⟩)
    · exact ⟨[], .of_head hfails steps⟩
    · exact ⟨_, (passes_singleton_iff.2 hpass).failsAfter_append hfails⟩

/-! ## Traversals -/

variable {f : α → Except ε β} {xs : List α}

theorem mapM_congr {g : α → Except ε β} (h : ∀ x ∈ xs, f x = g x) : xs.mapM f = xs.mapM g := by
  induction xs with
  | nil => rfl
  | cons x xs ih =>
    rw [List.mapM_cons, List.mapM_cons, h x List.mem_cons_self,
      ih fun y hy => h y (List.mem_cons_of_mem _ hy)]

/-- A traversal succeeds exactly if it does so on every item. -/
theorem mapM_eq_ok_iff {ys : List β} :
    xs.mapM f = .ok ys ↔ List.Forall₂ (fun x y => f x = .ok y) xs ys := by
  induction xs generalizing ys with
  | nil =>
    rw [List.mapM_nil, List.forall₂_nil_left_iff]
    exact ⟨fun h => (Except.ok.inj h).symm, fun h => h ▸ rfl⟩
  | cons x xs ih =>
    rw [List.mapM_cons, List.forall₂_cons_left_iff]
    simp only [← ih]
    cases f x with
    | error error =>
      refine iff_of_false nofun ?_
      rintro ⟨y, rest, hy, -⟩
      cases hy
    | ok y =>
      cases xs.mapM f with
      | error error =>
        refine iff_of_false nofun ?_
        rintro ⟨y', rest, -, hrest, -⟩
        cases hrest
      | ok rest =>
        constructor
        · intro h
          obtain rfl := Except.ok.inj h
          exact ⟨y, rest, rfl, rfl, rfl⟩
        · rintro ⟨y', rest', hy, hrest, rfl⟩
          obtain rfl := Except.ok.inj hy
          obtain rfl := Except.ok.inj hrest
          rfl

/-- A traversal ends with the error of the first item that has one. -/
theorem mapM_eq_error_iff :
    xs.mapM f = .error error ↔
      ∃ done, FailsAfter (fun x error => f x = .error error) xs done error := by
  induction xs with
  | nil =>
    refine iff_of_false nofun ?_
    rintro ⟨done, step, later, hsteps, -⟩
    simp at hsteps
  | cons x xs ih =>
    rw [List.mapM_cons, exists_failsAfter_cons_iff, ← ih]
    cases f x with
    | error error' =>
      constructor
      · intro h
        obtain rfl := Except.error.inj h
        exact .inl rfl
      · rintro (h | ⟨hpass, -⟩)
        · obtain rfl := Except.error.inj h
          rfl
        · exact absurd rfl (hpass error')
    | ok y =>
      cases xs.mapM f with
      | error error' => exact ⟨fun h => .inr ⟨nofun, h⟩, fun h => (h.resolve_left nofun).2⟩
      | ok rest => exact iff_of_false nofun fun h => nomatch (h.resolve_left nofun).2

/-- To go on with each item as it comes is to traverse the list first. -/
theorem foldlM_eq_mapM {γ : Type} {g : γ → β → γ} (xs : List α) (start : γ) :
    xs.foldlM (fun result x => do return g result (← f x)) start =
      (do return (← xs.mapM f).foldl g start) := by
  induction xs generalizing start with
  | nil => rfl
  | cons x xs ih =>
    rw [List.foldlM_cons, List.mapM_cons]
    cases f x with
    | error error => rfl
    | ok y =>
      refine (ih (g start y)).trans ?_
      cases xs.mapM f <;> rfl

theorem mapError_eq_ok_iff {δ : Type} {result : Except ε α} {restate : ε → δ} {value : α} :
    result.mapError restate = .ok value ↔ result = .ok value := by
  cases result with
  | error error => exact iff_of_false nofun nofun
  | ok value' => simp [Except.mapError]

theorem mapError_eq_error_iff {δ : Type} {result : Except ε α} {restate : ε → δ} {error : δ} :
    result.mapError restate = .error error ↔ ∃ cause, result = .error cause ∧
      restate cause = error := by
  cases result with
  | error cause => simp [Except.mapError]
  | ok value => simp [Except.mapError]

end PolicyLint
