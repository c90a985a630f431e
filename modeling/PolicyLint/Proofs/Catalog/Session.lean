import Mathlib.Logic.Function.Basic
import PolicyLint.Proofs.Catalog.Program

/-!
# Sessions

In a session, tasks run at the same time and share a new registry. A task constructs a rule or
loads a catalog (`Task`), and belongs to some client. Every request is answered in one step, but
between the requests of one task there may be any of the others : a schedule says whose request
comes next (`Session.run`).

Every step does one of three things (`Session.Steps`), and what all of them keep holds after any
schedule (`Session.run_induction`) : the rules constructed are numbered in the order of the
steps (`Session.Counted`), and every answer fits its request (`Session.Answered`). A task that is
not interrupted is performed as the library does it (`Session.finishes_of_program`).
-/

namespace PolicyLint

/-! ## Tasks -/

/-- What a client holds. -/
inductive Carrier
  | rule (rule : Rule)
  | element (element : ElementType)
  | catalog (catalog : Catalog)
  | finding (finding : Finding)

/-- What a client has done : a rule is constructed, or a catalog is built or loaded. -/
inductive Task
  | rule (request : Request)
  | build (draft : CatalogDraft)
  | load (text : String)

namespace Task

/-- Do a task. -/
def perform : Task → Construction (RuleError ⊕ LoadError) Carrier
  | rule request => .rule <$> request.construct.mapError .inl
  | build draft => .catalog <$> draft.build.mapError .inr
  | load text => .catalog <$> (Catalog.ofText text).mapError .inr

/-- A task request by request. -/
def program : Task → Program (RuleError ⊕ LoadError) Carrier
  | rule request => .rule <$> request.program.mapError .inl
  | build draft => .catalog <$> draft.program.mapError .inr
  | load text => .catalog <$> (Catalog.program text).mapError .inr

theorem alone_program (task : Task) : task.program.alone = task.perform := by
  cases task with
  | rule request =>
    rw [program, Program.alone_map, Program.alone_mapError, Request.alone_program, perform]
  | build draft =>
    rw [program, Program.alone_map, Program.alone_mapError, CatalogDraft.alone_program, perform]
  | load text =>
    rw [program, Program.alone_map, Program.alone_mapError, Catalog.alone_program, perform]

end Task

/-- What is left of a task. -/
abbrev Work :=
  Program (RuleError ⊕ LoadError) Carrier

/-! ## Sessions -/

/-- A request of a task, and what came of it. -/
structure Answer (ι : Type) where
  task : ι
  request : Request
  result : Except RuleError Rule

namespace Answer

variable {ι : Type}

/-- The rule that is constructed. -/
def rule? (answer : Answer ι) : Option Rule :=
  answer.result.toOption

end Answer

/-- A registry, what is left of the tasks that share it, and all answers so far. -/
structure Session (ι : Type) where
  registry : Registry
  programs : ι → Work
  answers : List (Answer ι)

namespace Session

variable {ι : Type}

/-- The rules constructed so far. -/
def rules (session : Session ι) : List Rule :=
  session.answers.filterMap Answer.rule?

/-- The rules have all numbers below the next one, in their order. -/
structure Counted (session : Session ι) : Prop where
  ids : session.rules.map Rule.id = List.range' 1 session.rules.length
  next : session.registry.next = session.rules.length + 1

/-- Every answer fits its request. -/
structure Answered (session : Session ι) : Prop where
  succeeded : ∀ answer ∈ session.answers, ∀ rule,
    answer.result = .ok rule → answer.request.draft.Describes rule
  failed : ∀ answer ∈ session.answers, ∀ error,
    answer.result = .error error ↔ answer.request.draft.Fails error

variable [DecidableEq ι]

/-- A task is given an answer and goes on with the rest of its program. -/
def reply (session : Session ι) (answer : Answer ι) (registry : Registry)
    (rest : Work) : Session ι where
  registry := registry
  programs := Function.update session.programs answer.task rest
  answers := session.answers ++ [answer]

/-- Answer the next request of a task. Nothing happens if the task is done. -/
def step (session : Session ι) (i : ι) : Session ι :=
  match session.programs i with
  | .done _ => session
  | .construct request next =>
    let (result, registry) := request.construct.run.run session.registry
    session.reply ⟨i, request, result⟩ registry (next result)

/-- Tasks with a new registry. -/
def start (tasks : ι → Task) : Session ι :=
  ⟨{}, fun i => (tasks i).program, []⟩

/-- What tasks have come to after a schedule. -/
def run (tasks : ι → Task) (schedule : List ι) : Session ι :=
  schedule.foldl step (start tasks)

/-! ## Steps -/

/-- What one step does : nothing, or a request is answered, with the next rule or with an error
and no rule. -/
inductive Steps (session : Session ι) (i : ι) : Session ι → Prop
  | idle {result : Except (RuleError ⊕ LoadError) Carrier}
    (h : session.programs i = .done result) : Steps session i session
  | constructed {request : Request}
    {next : Except RuleError Rule → Work} {rule : Rule}
    (h : session.programs i = .construct request next) (hrule : request.draft.Describes rule)
    (hid : rule.id = session.registry.next) :
    Steps session i
      (session.reply ⟨i, request, .ok rule⟩ ⟨session.registry.next + 1⟩ (next (.ok rule)))
  | refused {request : Request}
    {next : Except RuleError Rule → Work} {error : RuleError}
    (h : session.programs i = .construct request next) (hfails : request.draft.Fails error) :
    Steps session i
      (session.reply ⟨i, request, .error error⟩ session.registry (next (.error error)))

theorem steps_step (session : Session ι) (i : ι) : session.Steps i (session.step i) := by
  unfold step
  cases hprogram : session.programs i with
  | done result => exact .idle hprogram
  | construct request next =>
    rcases request.constructs_or_fails session.registry with
      ⟨rule, hrun, hrule, hid⟩ | ⟨error, hrun, hfails⟩
    · simp only [hrun]
      exact .constructed hprogram hrule hid
    · simp only [hrun]
      exact .refused hprogram hfails

/-- What holds at the start and is kept by every step holds after a schedule. -/
theorem run_induction {motive : Session ι → Prop} (tasks : ι → Task)
    (hstart : motive (start tasks))
    (hstep : ∀ session i session', motive session → session.Steps i session' → motive session')
    (schedule : List ι) : motive (run tasks schedule) := by
  induction schedule using List.reverseRecOn with
  | nil => exact hstart
  | append_singleton schedule i ih =>
    rw [run, List.foldl_concat]
    exact hstep _ i _ ih (steps_step _ i)

/-- A task that is not interrupted comes to the same result, and leaves the registry the same, as
its program on its own. -/
theorem exists_finish (session : Session ι) (i : ι) : ∃ n,
    ((List.replicate n i).foldl step session).programs i =
        .done ((session.programs i).alone.run.run session.registry).1 ∧
      ((List.replicate n i).foldl step session).registry =
        ((session.programs i).alone.run.run session.registry).2 := by
  -- By induction on what is left of the task, from any state of the others.
  generalize hprogram : session.programs i = program
  induction program generalizing session with
  | done result =>
    refine ⟨0, ?_⟩
    cases result <;> exact ⟨hprogram, rfl⟩
  | construct request next ih =>
    let result := (request.construct.run.run session.registry).1
    let registry := (request.construct.run.run session.registry).2
    have hstep : session.step i = session.reply ⟨i, request, result⟩ registry (next result) := by
      rw [step, hprogram]
      rfl
    have hnext : (session.step i).programs i = next result := by
      simp [hstep, reply]
    obtain ⟨n, hn⟩ := ih result (session.step i) hnext
    rw [hstep] at hn
    refine ⟨n + 1, ?_⟩
    rw [List.replicate_succ, List.foldl_cons, hstep]
    exact hn

/-- A task that runs on without the others is performed as the library does it. -/
def Finishes (session : Session ι) (i : ι) (task : Task) : Prop :=
  ∃ n, ((List.replicate n i).foldl step session).programs i =
      .done (task.perform.run.run session.registry).1 ∧
    ((List.replicate n i).foldl step session).registry =
      (task.perform.run.run session.registry).2

theorem finishes_of_program {session : Session ι} {i : ι} {task : Task}
    (h : session.programs i = task.program) : session.Finishes i task := by
  obtain ⟨n, hn⟩ := session.exists_finish i
  rw [h, Task.alone_program] at hn
  exact ⟨n, hn⟩

/-! ## Numbers and answers -/

@[simp]
theorem registry_reply (session : Session ι) (answer : Answer ι) (registry : Registry)
    (rest : Work) : (session.reply answer registry rest).registry = registry :=
  rfl

@[simp]
theorem rules_reply_ok (session : Session ι) (i : ι) (request : Request) (rule : Rule)
    (registry : Registry) (rest : Work) :
    (session.reply ⟨i, request, .ok rule⟩ registry rest).rules = session.rules ++ [rule] := by
  simp [rules, reply, Answer.rule?, Except.toOption]

@[simp]
theorem rules_reply_error (session : Session ι) (i : ι) (request : Request) (error : RuleError)
    (registry : Registry) (rest : Work) :
    (session.reply ⟨i, request, .error error⟩ registry rest).rules = session.rules := by
  simp [rules, reply, Answer.rule?, Except.toOption]

theorem counted_run (tasks : ι → Task) (schedule : List ι) : (run tasks schedule).Counted := by
  refine run_induction tasks ⟨rfl, rfl⟩ (fun session i session' h hsteps => ?_) schedule
  have hnext := h.next
  cases hsteps with
  | idle _ => exact h
  | refused _ _ => exact ⟨by simpa using h.ids, by simpa using hnext⟩
  | @constructed _ _ rule _ _ hid =>
    have hnumber : 1 + session.rules.length = rule.id := by omega
    refine ⟨?_, by simp [hnext]⟩
    rw [rules_reply_ok, List.map_append, h.ids, List.length_append, List.length_singleton,
      List.range'_1_concat, hnumber, List.map_singleton]

theorem answered_run (tasks : ι → Task) (schedule : List ι) :
    (run tasks schedule).Answered := by
  have hnil : ∀ answer : Answer ι, answer ∉ (start tasks).answers := fun _ => List.not_mem_nil
  refine run_induction tasks ⟨fun answer h => absurd h (hnil answer),
    fun answer h => absurd h (hnil answer)⟩ (fun session i session' h hsteps => ?_) schedule
  cases hsteps with
  | idle _ => exact h
  | @constructed request next rule _ hrule _ =>
    refine ⟨List.forall_mem_append.2 ⟨h.succeeded, List.forall_mem_singleton.2 ?_⟩,
      List.forall_mem_append.2 ⟨h.failed, List.forall_mem_singleton.2 fun error => ?_⟩⟩
    · rintro rule' ⟨⟩
      exact hrule
    · exact iff_of_false nofun hrule.not_fails
  | @refused request next error _ hfails =>
    refine ⟨List.forall_mem_append.2 ⟨h.succeeded, List.forall_mem_singleton.2 nofun⟩,
      List.forall_mem_append.2 ⟨h.failed, List.forall_mem_singleton.2 fun error' => ?_⟩⟩
    refine ⟨?_, fun hfails' => congrArg _ (hfails.unique hfails')⟩
    rintro ⟨⟩
    exact hfails

/-- A request that fails takes no number, and only the task that made it goes on. -/
theorem step_of_fails {session : Session ι} {i : ι} {request : Request}
    {next : Except RuleError Rule → Work} {error : RuleError}
    (h : session.programs i = .construct request next) (hfails : request.draft.Fails error) :
    session.step i =
      session.reply ⟨i, request, .error error⟩ session.registry (next (.error error)) := by
  have hsteps := session.steps_step i
  generalize session.step i = session' at hsteps ⊢
  cases hsteps with
  | idle hdone => rw [h] at hdone; cases hdone
  | constructed h' hrule _ =>
    rw [h] at h'
    cases h'
    exact absurd hfails hrule.not_fails
  | refused h' hfails' =>
    rw [h] at h'
    cases h'
    rw [hfails.unique hfails']

end Session

end PolicyLint
