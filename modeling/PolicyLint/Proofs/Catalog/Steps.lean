import PolicyLint.Catalog.Draft
import PolicyLint.Proofs.FirstFailure
import PolicyLint.Proofs.Rule.Numbering

/-!
# The steps of building a catalog

Building a catalog goes through steps : the entry of an element must have a name, and each rule
is constructed (`BuildStep`). `BuildStep.Fails` says when a step fails, and with which error; of
a rule, a removal date that is none is seen before a list of fields that is empty.

`Performs step steps post` says of a part of the construction that it takes exactly the given
steps, up to the first one that fails, and that every rule takes the next number. If no step
fails, the numbers taken and what is constructed agree by `post`. This goes through everything
that the construction is made of (`Performs.bind`, `Performs.mapM`), and is known of one rule
(`RuleDraft.performs_build`).
-/

namespace PolicyLint

/-! ## Rules and their drafts -/

/-- A value that gives a removal date, or none. -/
inductive RemovalDate.Reads : Value → Option RemovalDate → Prop
  | null : Reads .null none
  | text {text : String} {date : RemovalDate} (h : ofText? text = some date) :
    Reads (.string text) (some date)

/-- A value that gives no removal date but should, and what is said of it. -/
inductive RemovalDate.Misread : Value → RuleError → Prop
  | text {text : String} (h : ofText? text = none) :
    Misread (.string text) (.invalidRemovalDate text)
  | other {value : Value} (hnull : value ≠ .null) (hstring : ∀ text, value ≠ .string text) :
    Misread value (.removalDateNotString value)

theorem RemovalDate.Reads.not_misread {value : Value} {date : Option RemovalDate}
    {error : RuleError} (h : Reads value date) : ¬Misread value error := by
  intro hmisread
  cases h with
  | null =>
    cases hmisread with
    | other hnull hstring => exact hnull rfl
  | text hdate =>
    cases hmisread with
    | text hnone => cases hdate.symm.trans hnone
    | other hnull hstring => exact hstring _ rfl

theorem RemovalDate.Misread.unique {value : Value} {error error' : RuleError}
    (h : Misread value error) (h' : Misread value error') : error = error' := by
  cases h with
  | text =>
    cases h' with
    | text => rfl
    | other _ hstring => exact absurd rfl (hstring _)
  | other _ hstring =>
    cases h' with
    | text => exact absurd rfl (hstring _)
    | other => rfl

theorem RemovalDate.reads_or_misread (value : Value) :
    (∃ date, ofValue value = .ok date ∧ Reads value date) ∨
      ∃ error, ofValue value = .error error ∧ Misread value error := by
  cases value with
  | null => exact .inl ⟨none, rfl, .null⟩
  | string text =>
    cases hdate : ofText? text with
    | none =>
      have hread : ofValue (.string text) = .error (.invalidRemovalDate text) := by
        rw [ofValue, parse, hdate]
        rfl
      exact .inr ⟨_, hread, .text hdate⟩
    | some date =>
      have hread : ofValue (.string text) = .ok (some date) := by
        rw [ofValue, parse, hdate]
        rfl
      exact .inl ⟨_, hread, .text hdate⟩
  | boolean _ => exact .inr ⟨_, rfl, .other nofun nofun⟩
  | number _ => exact .inr ⟨_, rfl, .other nofun nofun⟩
  | list _ => exact .inr ⟨_, rfl, .other nofun nofun⟩
  | mapping _ => exact .inr ⟨_, rfl, .other nofun nofun⟩

/-- Only a rule on optional fields that names none is refused. -/
theorem RuleKind.checked_eq_error_iff {kind : RuleKind} {error : RuleError} :
    kind.checked = .error error ↔ kind = .optionality [] ∧ error = .emptyFieldSet := by
  constructor
  · intro h
    cases kind with
    | optionality fields =>
      cases fields with
      | nil => exact ⟨rfl, (Except.error.inj h).symm⟩
      | cons name names => cases h
    | typeAlias | field | element => cases h
  · rintro ⟨rfl, rfl⟩
    rfl

/-- A draft of a rule is not valid. -/
inductive RuleDraft.Fails (draft : RuleDraft) : RuleError → Prop
  | date {error : RuleError} (h : RemovalDate.Misread draft.removedAfter error) :
    Fails draft error
  | fields {date : Option RemovalDate} (hdate : RemovalDate.Reads draft.removedAfter date)
    (hform : draft.form = .optionalFields []) : Fails draft .emptyFieldSet

/-- A rule is as its draft describes it. -/
structure RuleDraft.Describes (draft : RuleDraft) (rule : Rule) : Prop where
  kind : draft.form.kind.checked = .ok rule.kind
  removedAfter : RemovalDate.Reads draft.removedAfter rule.removedAfter
  link : rule.link = draft.link

theorem RuleForm.eq_of_kind_eq {form : RuleForm} (h : form.kind = .optionality []) :
    form = .optionalFields [] := by
  cases form with
  | optionalFields names =>
    obtain rfl := RuleKind.optionality.inj h
    rfl
  | typeAlias | field | element | optionalField => cases h

theorem RuleDraft.Describes.not_fails {draft : RuleDraft} {rule : Rule} {error : RuleError}
    (h : draft.Describes rule) : ¬draft.Fails error := by
  intro hfails
  cases hfails with
  | date hmisread => exact h.removedAfter.not_misread hmisread
  | fields hdate hform =>
    have hkind := h.kind
    rw [hform] at hkind
    cases hkind

/-- There is one error to a draft at most. -/
theorem RuleDraft.Fails.unique {draft : RuleDraft} {error error' : RuleError}
    (h : draft.Fails error) (h' : draft.Fails error') : error = error' := by
  cases h with
  | date hmisread =>
    cases h' with
    | date hmisread' => exact hmisread.unique hmisread'
    | fields hdate => exact absurd hmisread hdate.not_misread
  | fields hdate =>
    cases h' with
    | date hmisread' => exact absurd hmisread' hdate.not_misread
    | fields => rfl

/-- A valid draft becomes a rule with the next number, and one that is not takes no number. -/
theorem RuleDraft.constructs_or_fails (draft : RuleDraft) (registry : Registry) :
    (∃ rule, draft.build.run.run registry = (.ok rule, ⟨registry.next + 1⟩) ∧
      draft.Describes rule ∧ rule.id = registry.next) ∨
      ∃ error, draft.build.run.run registry = (.error error, registry) ∧ draft.Fails error := by
  rw [RuleDraft.build]
  rcases RemovalDate.reads_or_misread draft.removedAfter with
    ⟨date, hdate, hreads⟩ | ⟨error, hdate, hmisread⟩
  · rw [hdate]
    change (∃ rule, (Registry.register draft.form.kind date >>= _).run.run registry = _ ∧ _) ∨
      ∃ error, (Registry.register draft.form.kind date >>= _).run.run registry = _ ∧ _
    rw [ExceptT.run_bind, StateT.run_bind, Registry.register]
    cases hkind : draft.form.kind.checked with
    | error error =>
      obtain ⟨hfields, rfl⟩ := RuleKind.checked_eq_error_iff.1 hkind
      exact .inr ⟨_, rfl, .fields hreads (RuleForm.eq_of_kind_eq hfields)⟩
    | ok kind =>
      refine .inl ⟨{ id := registry.next, kind, removedAfter := date, link := draft.link }, ?_,
        ⟨hkind, hreads, rfl⟩, rfl⟩
      cases draft.link <;> rfl
  · rw [hdate]
    exact .inr ⟨error, rfl, .date hmisread⟩

/-! ## Steps -/

/-- A step in building a catalog, at a place of it : an element shows its names, or a rule is
constructed. -/
inductive BuildStep
  | names (place : String) (names : List String)
  | rule (place : String) (draft : RuleDraft)

/-- A step fails with an error. -/
inductive BuildStep.Fails : BuildStep → LoadError → Prop
  | names {place : String} : Fails (.names place []) (.unnamedElement place)
  | rule {place : String} {draft : RuleDraft} {error : RuleError} (h : draft.Fails error) :
    Fails (.rule place draft) (.invalidRule place error)

/-- Whether a step constructs a rule. -/
def BuildStep.isRule : BuildStep → Bool
  | names .. => false
  | rule .. => true

/-- The number of rules that steps construct. -/
def ruleCount (steps : List BuildStep) : Nat :=
  steps.countP BuildStep.isRule

theorem ruleCount_append (steps more : List BuildStep) :
    ruleCount (steps ++ more) = ruleCount steps + ruleCount more :=
  List.countP_append

namespace Construction

variable {α β : Type}

/-- What comes of steps, from a registry on : everything is constructed, or the first step that
fails ends it. -/
inductive Reaches (steps : List BuildStep) (post : List Nat → α → Prop) (registry : Registry) :
    Except LoadError α × Registry → Prop
  | complete {value : α} (hpass : Passes BuildStep.Fails steps)
    (hvalue : post (List.range' registry.next (ruleCount steps)) value) :
    Reaches steps post registry (.ok value, ⟨registry.next + ruleCount steps⟩)
  | stopped {done : List BuildStep} {error : LoadError}
    (h : FailsAfter BuildStep.Fails steps done error) :
    Reaches steps post registry (.error error, ⟨registry.next + ruleCount done⟩)

/-- A part of the construction takes steps, and gives what agrees with the numbers used. -/
def Performs (step : Construction LoadError α) (steps : List BuildStep)
    (post : List Nat → α → Prop) : Prop :=
  ∀ registry, Reaches steps post registry (step.run.run registry)

namespace Performs

variable {step : Construction LoadError α} {steps : List BuildStep}
  {post post' : List Nat → α → Prop}

theorem pure {value : α} (h : post [] value) :
    Performs (pure value : Construction LoadError α) [] post :=
  fun _ => .complete passes_nil h

theorem throw {first : BuildStep} {error : LoadError} (h : first.Fails error)
    (later : List BuildStep) :
    Performs (throw error : Construction LoadError α) (first :: later) post :=
  fun _ => .stopped (.of_head h later)

/-- The second of two steps goes on where the first one ends. -/
theorem bind {next : α → Construction LoadError β} {steps' : List BuildStep}
    {post' : List Nat → β → Prop} (h : Performs step steps post)
    (hnext : ∀ ids value, post ids value →
      Performs (next value) steps' fun ids' => post' (ids ++ ids')) :
    Performs (step >>= next) (steps ++ steps') post' := by
  intro registry
  have hreaches := h registry
  rw [ExceptT.run_bind, StateT.run_bind]
  generalize step.run.run registry = ended at hreaches
  cases hreaches with
  | stopped hfails => exact .stopped (hfails.append_right _)
  | @complete value hpass hvalue =>
    have hreaches' := hnext _ value hvalue ⟨registry.next + ruleCount steps⟩
    change Reaches _ _ _ ((next value).run.run ⟨registry.next + ruleCount steps⟩)
    generalize (next value).run.run _ = ended at hreaches'
    cases hreaches' with
    | @complete value' hpass' hvalue' =>
      -- The second part starts at the number the first one ends with, so its numbers follow.
      rw [List.range'_append_1, ← ruleCount_append] at hvalue'
      rw [Nat.add_assoc, ← ruleCount_append]
      exact .complete (hpass.append hpass') hvalue'
    | @stopped done error hfails =>
      rw [Nat.add_assoc, ← ruleCount_append]
      exact .stopped (hpass.failsAfter_append hfails)

/-- An element that has a name goes on to its rules. -/
theorem names_cons (place name : String) (names : List String) (h : Performs step steps post) :
    Performs step (.names place (name :: names) :: steps) post := by
  have hentry : Performs (Pure.pure () : Construction LoadError Unit)
      [.names place (name :: names)] fun ids _ => ids = [] := by
    refine fun registry => .complete (passes_singleton_iff.2 fun error hfails => ?_) rfl
    cases hfails
  have hbind : Performs (Pure.pure () >>= fun _ => step)
      ([.names place (name :: names)] ++ steps) post := by
    refine hentry.bind fun ids _ hids => ?_
    rw [hids]
    exact h
  rw [pure_bind] at hbind
  exact hbind

theorem imp (h : Performs step steps post) (hpost : ∀ ids value, post ids value → post' ids value) :
    Performs step steps post' := by
  intro registry
  have hreaches := h registry
  generalize step.run.run registry = ended at hreaches
  cases hreaches with
  | complete hpass hvalue => exact .complete hpass (hpost _ _ hvalue)
  | stopped hfails => exact .stopped hfails

theorem map {f : α → β} {post' : List Nat → β → Prop} (h : Performs step steps post)
    (hf : ∀ ids value, post ids value → post' ids (f value)) :
    Performs (do return f (← step)) steps post' := by
  rw [← List.append_nil steps]
  refine h.bind fun ids value hvalue => pure ?_
  rw [List.append_nil]
  exact hf ids value hvalue

/-- The items of a list take their steps one after the other. -/
theorem mapM {f : α → Construction LoadError β} {stepsOf : α → List BuildStep}
    {post : α → List Nat → β → Prop} (posts : List α → List Nat → List β → Prop)
    (hnil : posts [] [] [])
    (hcons : ∀ {x xs ids ids' y ys}, post x ids y → posts xs ids' ys →
      posts (x :: xs) (ids ++ ids') (y :: ys))
    (h : ∀ x, Performs (f x) (stepsOf x) (post x)) (xs : List α) :
    Performs (xs.mapM f) (xs.flatMap stepsOf) (posts xs) := by
  induction xs with
  | nil => exact pure hnil
  | cons x xs ih =>
    rw [List.mapM_cons, List.flatMap_cons]
    exact (h x).bind fun ids y hy => ih.map fun ids' ys hys => hcons hy hys

/-- The numbers used are the next ones, whether steps fail or not. -/
theorem numbers (h : Performs step steps post) : Numbers step post := by
  intro registry
  have hreaches := h registry
  generalize step.run.run registry = ended at hreaches
  cases hreaches with
  | complete hpass hvalue =>
    refine ⟨ruleCount steps, rfl, fun value hok => ?_⟩
    obtain rfl := Except.ok.inj hok
    exact hvalue
  | @stopped done error hfails => exact ⟨ruleCount done, rfl, fun _ hok => nomatch hok⟩

end Performs

end Construction

open Construction (Performs)

/-- Constructing a rule is one step. -/
theorem RuleDraft.performs_build (place : String) (draft : RuleDraft) :
    Performs (draft.build.mapError (.invalidRule place)) [.rule place draft] fun ids rule =>
      draft.Describes rule ∧ ids = [rule.id] := by
  intro registry
  change Construction.Reaches _ _ _ ((draft.build.run.run registry).1.mapError _,
    (draft.build.run.run registry).2)
  rcases draft.constructs_or_fails registry with
    ⟨rule, hrun, hdescribes, hid⟩ | ⟨error, hrun, hfails⟩
  · have hpass : Passes BuildStep.Fails [.rule place draft] := by
      refine passes_singleton_iff.2 fun error hstep => ?_
      cases hstep with
      | rule hfails => exact hdescribes.not_fails hfails
    rw [hrun]
    refine .complete hpass ⟨hdescribes, ?_⟩
    rw [hid]
    rfl
  · rw [hrun]
    exact .stopped (.of_head (.rule hfails) [])

end PolicyLint
