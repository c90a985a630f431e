import PolicyLint.Proofs.Catalog.Agreement
import PolicyLint.Proofs.Catalog.Session

/-!
# Where rules come from

What a session gives to its clients are the rules constructed, whether the load that they are
for fails later or not, the results of tasks, and all that the clients may make of these and
find in them (`Session.Gives`). What all rules constructed have in common is kept in that
(`Session.Gives.holds`), so every rule comes from some request, and no other rule has its number.

Main statement : in any session with fewer than `2 ^ 64 - 1` rules, these are numbered from 1 in
the order of the steps, a request that fails changes nothing, and rules with the same number
come from the same request (`Session.Numbered`, `Session.numbered_run`).
-/

namespace PolicyLint

/-! ## What a session gives -/

/-- What clients may come to hold : a rule that is constructed, the result of a task, and what
they make of these and find in them. -/
inductive Session.Gives {ι : Type} (session : Session ι) : Carrier → Prop
  | rule {rule : Rule} (h : rule ∈ session.rules) : Gives session (.rule rule)
  | result {i : ι} {carrier : Carrier} (h : session.programs i = .done (.ok carrier)) :
    Gives session carrier
  | withLink {rule : Rule} (h : Gives session (.rule rule)) (link : String) :
    Gives session (.rule (rule.withLink link))
  | element {element : ElementType} (h : ∀ rule ∈ element.rules, Gives session (.rule rule)) :
    Gives session (.element element)
  | ruleOf {element : ElementType} {rule : Rule} (h : Gives session (.element element))
    (hrule : rule ∈ element.rules) : Gives session (.rule rule)
  | empty : Gives session (.catalog ∅)
  | register {catalog : Catalog} {registration : Registration}
    (h : Gives session (.catalog catalog))
    (hrules : ∀ listed ∈ registration.listed, Gives session (.rule listed.rule)) :
    Gives session (.catalog (registration.applyTo catalog))
  | extend {catalog other : Catalog} (h : Gives session (.catalog catalog))
    (h' : Gives session (.catalog other)) : Gives session (.catalog (catalog.extend other))
  | found {catalog : Catalog} {listed : ListedRule} (h : Gives session (.catalog catalog))
    (hfinds : catalog.Finds listed) : Gives session (.rule listed.rule)
  | report {catalog : Catalog} {policy : Policy} {place : Section} {finding : Finding}
    (h : Gives session (.catalog catalog))
    (hfinding : finding ∈ (policy.withRules catalog).report.findingsOf place) :
    Gives session (.finding finding)
  | context {rule : Rule} (h : Gives session (.rule rule)) (label : Option String) :
    Gives session (.finding ⟨rule, label⟩)
  | finding {finding : Finding} (h : Gives session (.finding finding)) :
    Gives session (.rule finding.rule)

/-- A rule comes from a request : it is the one constructed, but for the link. -/
def Answer.Origin {ι : Type} (answer : Answer ι) (rule : Rule) : Prop :=
  ∃ original, answer.rule? = some original ∧ ∃ link, rule = { original with link }

namespace Session

variable {ι κ : Type}

/-- The rules constructed for a client. -/
def rulesOf [DecidableEq κ] (client : ι → κ) (session : Session ι) (c : κ) : List Rule :=
  (session.answers.filter fun answer => client answer.task = c).filterMap Answer.rule?

variable [DecidableEq ι]

/-- Rules are numbered from 1 in the order of the steps, and a number stays with its request. -/
structure Numbered [DecidableEq κ] (client : ι → κ) (session : Session ι) : Prop
    extends session.Counted, session.Answered where
  words : (session.rules.map fun rule => rule.word.toNat) =
    List.range' 1 session.rules.length
  next_lt : session.registry.next < UInt64.size
  nodup : (session.rules.map Rule.word).Nodup
  increasing : ∀ c, ((session.rulesOf client c).map Rule.word).Pairwise (· < ·)
  unchanged : ∀ i request next error, session.programs i = .construct request next →
    request.draft.Fails error →
      session.step i =
        session.reply ⟨i, request, .error error⟩ session.registry (next (.error error))
  origin : ∀ rule other, session.Gives (.rule rule) → session.Gives (.rule other) →
    rule.word = other.word →
      (∃! answer, answer ∈ session.answers ∧ answer.Origin rule ∧ answer.Origin other) ∧
      rule.kind = other.kind ∧ rule.removedAfter = other.removedAfter

/-! ## What is given stays given -/

theorem programs_reply {session : Session ι} {i j : ι} {request : Request}
    {next : Except RuleError Rule → Work} {result : Except (RuleError ⊕ LoadError) Carrier}
    (hi : session.programs i = .construct request next) (hj : session.programs j = .done result)
    (answer : Except RuleError Rule) (registry : Registry) (rest : Work) :
    (session.reply ⟨i, request, answer⟩ registry rest).programs j = .done result := by
  have hne : j ≠ i := by
    rintro rfl
    simp [hi] at hj
  simpa [reply, Function.update_of_ne hne] using hj

theorem Gives.step {session : Session ι} {carrier : Carrier} (h : session.Gives carrier) (i : ι) :
    (session.step i).Gives carrier := by
  have hsteps := session.steps_step i
  generalize session.step i = session' at hsteps ⊢
  have hrules : session.rules ⊆ session'.rules := by
    cases hsteps with
    | idle _ => exact List.Subset.refl _
    | constructed _ _ _ => simp
    | refused _ _ => simp
  have hdone : ∀ j result, session.programs j = .done result →
      session'.programs j = .done result := by
    intro j result hj
    cases hsteps with
    | idle _ => exact hj
    | constructed hi _ _ => exact programs_reply hi hj _ _ _
    | refused hi _ => exact programs_reply hi hj _ _ _
  induction h with
  | rule hrule => exact .rule (hrules hrule)
  | result hresult => exact .result (hdone _ _ hresult)
  | withLink _ link ih => exact ih.withLink link
  | element _ ih => exact .element ih
  | ruleOf _ hrule ih => exact ih.ruleOf hrule
  | empty => exact .empty
  | register _ _ ih ihrules => exact ih.register ihrules
  | extend _ _ ih ih' => exact ih.extend ih'
  | found _ hfinds ih => exact ih.found hfinds
  | report _ hfinding ih => exact ih.report hfinding
  | context _ label ih => exact ih.context label
  | finding _ ih => exact ih.finding

theorem Gives.run_append {tasks : ι → Task} {schedule : List ι} {carrier : Carrier}
    (h : (run tasks schedule).Gives carrier) (later : List ι) :
    (run tasks (schedule ++ later)).Gives carrier := by
  induction later using List.reverseRecOn with
  | nil => rwa [List.append_nil]
  | append_singleton later i ih =>
    rw [← List.append_assoc, run, List.foldl_concat]
    exact ih.step i

end Session

/-! ## What rules have in common -/

/-- All rules in what a client holds have a property. -/
def Carrier.Holds (P : Rule → Prop) : Carrier → Prop
  | .rule held => P held
  | .element held => ∀ rule ∈ held.rules, P rule
  | .catalog held => held.Holds P
  | .finding held => P held.rule

section

variable {P : Rule → Prop}

theorem Task.keeps_program (task : Task) : task.program.Keeps P (Carrier.Holds P) := by
  cases task with
  | rule request => exact (request.keeps_program.mapError _).map fun _ hrule => hrule
  | build draft => exact (draft.keeps_program.mapError _).map fun _ hcatalog => hcatalog
  | load text => exact ((Catalog.keeps_program text).mapError _).map fun _ hcatalog => hcatalog

namespace Catalog.Holds

variable {catalog other : Catalog}

theorem empty : (∅ : Catalog).Holds P :=
  ⟨[], records_empty, nofun⟩

theorem extend (h : catalog.Holds P) (h' : other.Holds P) : (catalog.extend other).Holds P := by
  obtain ⟨log, hlog, hrules⟩ := h
  obtain ⟨log', hlog', hrules'⟩ := h'
  exact ⟨log ++ log', hlog.extend hlog', List.forall_mem_append.2 ⟨hrules, hrules'⟩⟩

theorem applyTo {registration : Registration} (h : catalog.Holds P)
    (hrules : ∀ listed ∈ registration.listed, P listed.rule) :
    (registration.applyTo catalog).Holds P := by
  rw [registration.applyTo_eq_extend]
  exact h.extend ⟨[registration], registration.records_alone, List.forall_mem_singleton.2 hrules⟩

theorem of_finds (h : catalog.Holds P) {listed : ListedRule} (hfinds : catalog.Finds listed) :
    P listed.rule := by
  obtain ⟨log, hlog, hrules⟩ := h
  obtain ⟨registration, hmem, hlisted⟩ := hlog.follows.exists_listed hfinds
  exact hrules registration hmem listed hlisted

theorem of_report (h : catalog.Holds P) {policy : Policy} {place : Section} {finding : Finding}
    (hfinding : finding ∈ (policy.withRules catalog).report.findingsOf place) :
    P finding.rule := by
  have hfinds : ∃ element, catalog.Finds ⟨place, element, finding.rule⟩ := by
    obtain ⟨log, hlog, -⟩ := h
    obtain ⟨element, -, hfinds⟩ := hlog.follows.exists_finds hfinding
    exact ⟨element, hfinds⟩
  obtain ⟨element, hfinds⟩ := hfinds
  exact h.of_finds hfinds

end Catalog.Holds

namespace Session

variable {ι : Type}

/-- What all rules constructed have in common is kept by everything made of them. -/
theorem Gives.holds {session : Session ι} (hlink : ∀ rule link, P rule → P (rule.withLink link))
    (hrules : ∀ rule ∈ session.rules, P rule)
    (hprograms : ∀ i, (session.programs i).Keeps P (Carrier.Holds P)) {carrier : Carrier}
    (h : session.Gives carrier) : carrier.Holds P := by
  induction h with
  | rule hrule => exact hrules _ hrule
  | @result i carrier hdone =>
    have hkeeps := hprograms i
    rw [hdone] at hkeeps
    exact hkeeps carrier rfl
  | withLink _ link ih => exact hlink _ link ih
  | element _ ih => exact ih
  | ruleOf _ hrule ih => exact ih _ hrule
  | empty => exact .empty
  | register _ _ ih ihrules => exact Catalog.Holds.applyTo ih ihrules
  | extend _ _ ih ih' => exact Catalog.Holds.extend ih ih'
  | found _ hfinds ih => exact Catalog.Holds.of_finds ih hfinds
  | report _ hfinding ih => exact Catalog.Holds.of_report ih hfinding
  | context _ _ ih => exact ih
  | finding _ ih => exact ih

variable [DecidableEq ι]

theorem keeps_reply {session : Session ι}
    (h : ∀ i, (session.programs i).Keeps P (Carrier.Holds P)) {i : ι} {request : Request}
    {next : Except RuleError Rule → Work}
    (hprogram : session.programs i = .construct request next) {result : Except RuleError Rule}
    (hresult : ∀ rule, result = .ok rule → P rule) (registry : Registry) (j : ι) :
    ((session.reply ⟨i, request, result⟩ registry (next result)).programs j).Keeps P
      (Carrier.Holds P) := by
  by_cases hj : j = i
  · subst hj
    have hkeeps := h j
    rw [hprogram] at hkeeps
    simpa [reply] using hkeeps result hresult
  · simpa [reply, Function.update_of_ne hj] using h j

/-- If all rules constructed have a property, so do those in the results, for as long as the
rules to come have it too. -/
theorem keeps_run (tasks : ι → Task) (schedule : List ι) :
    (∀ rule ∈ (run tasks schedule).rules, P rule) →
      ∀ i, ((run tasks schedule).programs i).Keeps P (Carrier.Holds P) := by
  -- The property is of the rules in the last state, which has those of all states before it.
  refine run_induction (motive := fun session => (∀ rule ∈ session.rules, P rule) →
    ∀ i, (session.programs i).Keeps P (Carrier.Holds P)) tasks
    (fun _ i => (tasks i).keeps_program) (fun session j session' h hsteps hrules => ?_) schedule
  cases hsteps with
  | idle _ => exact h hrules
  | @constructed request next rule hprogram _ _ =>
    rw [rules_reply_ok, List.forall_mem_append, List.forall_mem_singleton] at hrules
    obtain ⟨hrules, hrule⟩ := hrules
    refine keeps_reply (h hrules) hprogram (fun rule' hresult => ?_) _
    obtain rfl := Except.ok.inj hresult
    exact hrule
  | @refused request next error hprogram _ =>
    have hnone : ∀ rule, (.error error : Except RuleError Rule) = .ok rule → P rule := nofun
    rw [rules_reply_error] at hrules
    exact keeps_reply (h hrules) hprogram hnone _

end Session

end

/-! ## Rules and their requests -/

namespace Answer

variable {ι : Type} {answer : Answer ι} {rule : Rule}

theorem origin_of_rule? (h : answer.rule? = some rule) : answer.Origin rule :=
  ⟨rule, h, rule.link, rfl⟩

theorem Origin.withLink (h : answer.Origin rule) (link : String) :
    answer.Origin (rule.withLink link) := by
  obtain ⟨original, horiginal, link', rfl⟩ := h
  exact ⟨original, horiginal, some link, rfl⟩

end Answer

namespace Session

variable {ι κ : Type}

namespace Counted

variable {session : Session ι}

/-- A number belongs to one answer. -/
theorem eq_of_id_eq (h : session.Counted) {answer answer' : Answer ι}
    (hmem : answer ∈ session.answers) (hmem' : answer' ∈ session.answers) {rule rule' : Rule}
    (hrule : answer.rule? = some rule) (hrule' : answer'.rule? = some rule')
    (hid : rule.id = rule'.id) : answer = answer' := by
  have hsymm : Std.Symm fun a b : Answer ι =>
      ∀ x, a.rule? = some x → ∀ y, b.rule? = some y → x.id ≠ y.id :=
    ⟨fun a b hab x hx y hy heq => hab y hy x hx heq.symm⟩
  have hnodup : (session.rules.map Rule.id).Nodup := by
    rw [h.ids]
    exact List.nodup_range'
  rw [rules, List.Nodup, List.pairwise_map, List.pairwise_filterMap] at hnodup
  by_contra hne
  exact hnodup.forall hmem hmem' hne rule hrule rule' hrule' hid

variable (h : session.Counted) (hfew : session.rules.length < UInt64.size - 1)

include h hfew

/-- No number is too large for the counter. -/
theorem word_toNat {rule : Rule} (hrule : rule ∈ session.rules) : rule.word.toNat = rule.id := by
  have hid : rule.id ∈ List.range' 1 session.rules.length :=
    h.ids ▸ List.mem_map_of_mem hrule
  rw [List.mem_range'_1] at hid
  have hlt : rule.id < UInt64.size := by omega
  exact UInt64.toNat_ofNat_of_lt' hlt

theorem map_word_toNat : (session.rules.map fun rule => rule.word.toNat) =
    List.range' 1 session.rules.length := by
  rw [List.map_congr_left fun rule hrule => h.word_toNat hfew hrule, h.ids]

theorem pairwise_word : (session.rules.map Rule.word).Pairwise (· < ·) := by
  have hpairwise := List.pairwise_lt_range' (s := 1) (n := session.rules.length) 1
  rw [← h.map_word_toNat hfew, List.pairwise_map] at hpairwise
  exact List.pairwise_map.2 (hpairwise.imp UInt64.lt_iff_toNat_lt.2)

end Counted

variable [DecidableEq ι]

/-- Everything that is given comes from some answer. -/
theorem exists_origin (tasks : ι → Task) (schedule : List ι) {rule : Rule}
    (h : (run tasks schedule).Gives (.rule rule)) :
    ∃ answer ∈ (run tasks schedule).answers, answer.Origin rule := by
  let P : Rule → Prop := fun rule => ∃ answer ∈ (run tasks schedule).answers, answer.Origin rule
  have hlink : ∀ rule link, P rule → P (rule.withLink link) := by
    rintro rule link ⟨answer, hmem, horigin⟩
    exact ⟨answer, hmem, horigin.withLink link⟩
  have hrules : ∀ rule ∈ (run tasks schedule).rules, P rule := by
    intro rule hrule
    obtain ⟨answer, hmem, hanswer⟩ := List.mem_filterMap.1 hrule
    exact ⟨answer, hmem, Answer.origin_of_rule? hanswer⟩
  exact h.holds hlink hrules (keeps_run tasks schedule hrules)

/-- Rules that are given and have the same number come from the same request. -/
theorem existsUnique_origin {tasks : ι → Task} {schedule : List ι}
    (hfew : (run tasks schedule).rules.length < UInt64.size - 1) {rule other : Rule}
    (hrule : (run tasks schedule).Gives (.rule rule))
    (hother : (run tasks schedule).Gives (.rule other)) (heq : rule.word = other.word) :
    (∃! answer, answer ∈ (run tasks schedule).answers ∧
      answer.Origin rule ∧ answer.Origin other) ∧
      rule.kind = other.kind ∧ rule.removedAfter = other.removedAfter := by
  have hcounted := counted_run tasks schedule
  obtain ⟨answer, hmem, original, horiginal, link, rfl⟩ := exists_origin tasks schedule hrule
  obtain ⟨answer', hmem', original', horiginal', link', rfl⟩ :=
    exists_origin tasks schedule hother
  have hid : original.id = original'.id := by
    rw [← hcounted.word_toNat hfew (List.mem_filterMap.2 ⟨answer, hmem, horiginal⟩),
      ← hcounted.word_toNat hfew (List.mem_filterMap.2 ⟨answer', hmem', horiginal'⟩)]
    exact congrArg UInt64.toNat heq
  obtain rfl := hcounted.eq_of_id_eq hmem hmem' horiginal horiginal' hid
  obtain rfl := Option.some.inj (horiginal.symm.trans horiginal')
  refine ⟨⟨answer, ⟨hmem, ⟨original, horiginal, link, rfl⟩, original, horiginal, link', rfl⟩, ?_⟩,
    rfl, rfl⟩
  rintro answer' ⟨hmem', ⟨rule, hrule, link'', heq⟩, -⟩
  exact hcounted.eq_of_id_eq hmem' hmem hrule horiginal (congrArg Rule.id heq).symm

/-- Sessions number their rules, whatever their schedule. What they have given stays given, and a
task that has not begun is performed as the library does it if no other comes in between. -/
theorem numbered_run [DecidableEq κ] (tasks : ι → Task) (client : ι → κ) (schedule : List ι)
    (hfew : (run tasks schedule).rules.length < UInt64.size - 1) :
    (run tasks schedule).Numbered client ∧
    (∀ carrier, (run tasks schedule).Gives carrier →
      ∀ later, (run tasks (schedule ++ later)).Gives carrier) ∧
    ∀ i, (run tasks schedule).programs i = (tasks i).program →
      (run tasks schedule).Finishes i (tasks i) := by
  have hcounted := counted_run tasks schedule
  have hnext := hcounted.next
  have hsorted := hcounted.pairwise_word hfew
  have hnumbered : (run tasks schedule).Numbered client :=
    { toCounted := hcounted
      toAnswered := answered_run tasks schedule
      words := hcounted.map_word_toNat hfew
      next_lt := by omega
      nodup := hsorted.imp UInt64.ne_of_lt
      increasing := fun c => hsorted.sublist ((List.filter_sublist.filterMap _).map _)
      unchanged := fun i request next error => step_of_fails
      origin := fun rule other => existsUnique_origin hfew }
  exact ⟨hnumbered, fun _ => Gives.run_append, fun _ => finishes_of_program⟩

/-- A load, the second rule of which has no valid date, and a rule for another client. -/
def sampleTasks : Bool → Task
  | true => .build
    { policy :=
        [{ form := .field "a" "b" }, { form := .field "c" "d", removedAfter := .string "x" }] }
  | false => .rule (.typeAlias "e" none)

theorem numbered_run_sample :
    (run sampleTasks [true, false, true]).rules.map Rule.id = [1, 2] ∧
    (run sampleTasks [true, false, true]).programs true =
      .done (.error (.inr (.invalidRule "policy" (.invalidRemovalDate "x")))) ∧
    (run sampleTasks [true, false, true]).rules.length < UInt64.size - 1 ∧
    (run sampleTasks [true, false, true]).Numbered id := by
  have hrules : (run sampleTasks [true, false, true]).rules =
      [{ id := 1, kind := .field "a" "b" }, { id := 2, kind := .typeAlias "e" }] := rfl
  have hfew : (run sampleTasks [true, false, true]).rules.length < UInt64.size - 1 := by
    simp [hrules]
  exact ⟨by simp [hrules], rfl, hfew, (numbered_run sampleTasks id [true, false, true] hfew).1⟩

end Session

end PolicyLint
