import Mathlib.Algebra.GroupWithZero.Nat
import PolicyLint.Proofs.Command.Summary
import PolicyLint.Proofs.Files.Found
import PolicyLint.Proofs.Places
import PolicyLint.Proofs.Report.Counts

/-!
# How a check ends

A check goes through its paths, and through the files that each leads to. A file is loaded by
its path, once all files under the path are found (`LoadsUnder`), and the first path that has
no files to find, or a file that does not load, ends the check (`PathFails`).

`CheckOptions.ReportsOn` says what a check writes that loads all files : the report on every
policy with a finding (`CheckOptions.PrintedAt`), in the order of paths, files and policies,
and a line with the numbers of files, policies and reports.

Main statement : a check whose files all load reports on them, and fails at most for being
strict; any other check ends with the first error and writes no report
(`Invocation.run_check_ofTree`).
-/

namespace PolicyLint

/-! ## Loading the files of a check -/

/-- The policy files under a path are found and, by their paths, loaded. -/
def LoadsUnder (files : Files) (path : String) (loaded : List PolicyFile) : Prop :=
  ∃ found, FileSearch.policyFiles {} files path = .ok found ∧
    List.Forall₂ (fun file policyFile => PolicyFile.load files file.path = .ok policyFile)
      found loaded

/-- A file that was found does not load. -/
inductive FileFails (files : Files) (file : FoundFile) : CommandError → Prop
  | load {cause : LoadError} (h : PolicyFile.load files file.path = .error cause) :
    FileFails files file (.policies file.path cause)

/-- There are no files to find at a path, or of those found, one after `done` is the first that
does not load. -/
inductive PathFails (files : Files) (path : String) : CommandError → Prop
  | search {cause : LoadError} (h : FileSearch.policyFiles {} files path = .error cause) :
    PathFails files path (.discovery path cause)
  | file {found done : List FoundFile} {error : CommandError}
    (h : FileSearch.policyFiles {} files path = .ok found)
    (hfile : FailsAfter (FileFails files) found done error) : PathFails files path error

/-- A file that is read later than it was found is the same. -/
theorem PolicyFile.load_eq_ofFound {files : Files} {file : FoundFile}
    (h : files.look file.path = .ok (.file file.text)) : load files file.path = ofFound file := by
  unfold load ofFound Files.readText Files.read
  rw [h]
  cases file.text <;> rfl

/-- What is found under a path is the same when it is read later. -/
def Files.KeepsFound (files : Files) : Prop :=
  ∀ path found, FileSearch.policyFiles {} files path = .ok found →
    ∀ file ∈ found, PolicyFile.load files file.path = PolicyFile.ofFound file

theorem Files.keepsFound_ofTree {root : FileTree} (h : root.WellNamed) (working : List String) :
    (ofTree root working).KeepsFound := fun _ _ hfound _ hfile =>
  PolicyFile.load_eq_ofFound (FileSearch.look_of_mem_policyFiles h hfound hfile)

namespace PolicyFile

variable {files : Files} {path : String}

/-- The policy files under a path are loaded by their paths. -/
theorem under_eq (h : files.KeepsFound) (path : String) :
    under files path = (do
      let found ← (FileSearch.policyFiles {} files path).mapError (.discovery path)
      found.mapM fun file => (load files file.path).mapError (.policies file.path)) := by
  unfold under
  cases hfound : FileSearch.policyFiles {} files path with
  | error cause => rfl
  | ok found =>
    refine mapM_congr fun file hfile => ?_
    rw [h path found hfound file hfile]

theorem under_eq_ok_iff (h : files.KeepsFound) {loaded : List PolicyFile} :
    under files path = .ok loaded ↔ LoadsUnder files path loaded := by
  rw [under_eq h, LoadsUnder]
  cases hfound : FileSearch.policyFiles {} files path with
  | error cause =>
    refine iff_of_false nofun ?_
    rintro ⟨found, hok, -⟩
    cases hok
  | ok found =>
    refine mapM_eq_ok_iff.trans ?_
    simp only [mapError_eq_ok_iff]
    constructor
    · exact fun hloaded => ⟨found, rfl, hloaded⟩
    · rintro ⟨found', hok, hloaded⟩
      obtain rfl := Except.ok.inj hok
      exact hloaded

theorem under_eq_error_iff (h : files.KeepsFound) {error : CommandError} :
    under files path = .error error ↔ PathFails files path error := by
  rw [under_eq h]
  cases hfound : FileSearch.policyFiles {} files path with
  | error cause =>
    constructor
    · intro herror
      obtain rfl := Except.error.inj herror
      exact .search hfound
    · intro hfails
      cases hfails with
      | search hsearch =>
        obtain rfl := Except.error.inj (hsearch.symm.trans hfound)
        rfl
      | file hok => cases hok.symm.trans hfound
  | ok found =>
    have hfails : (fun (file : FoundFile) error =>
        (load files file.path).mapError (.policies file.path) = .error error) =
        FileFails files := by
      funext file error
      refine propext (mapError_eq_error_iff.trans ⟨?_, ?_⟩)
      · rintro ⟨cause, hload, rfl⟩
        exact .load hload
      · rintro ⟨hload⟩
        exact ⟨_, hload, rfl⟩
    refine mapM_eq_error_iff.trans ?_
    rw [hfails]
    constructor
    · rintro ⟨done, hfile⟩
      exact .file hfound hfile
    · intro hpath
      cases hpath with
      | search hsearch => cases hsearch.symm.trans hfound
      | @file found' done _ hok hfile =>
        obtain rfl := Except.ok.inj (hok.symm.trans hfound)
        exact ⟨done, hfile⟩

end PolicyFile

/-! ## Reporting on the files of a check -/

namespace CheckOptions

variable (options : CheckOptions) (catalog : Catalog)

/-- The report that is printed at a place : the positions of a path, of a file under it and of a
policy with a finding in that file. -/
inductive PrintedAt (loaded : List (List PolicyFile)) : List Nat → String → Prop
  | intro {i j k : Nat} {files : List PolicyFile} {file : PolicyFile} {policy : Policy}
    (hfiles : loaded[i]? = some files) (hfile : files[j]? = some file)
    (hpolicy : file.policies[k]? = some policy)
    (hfound : ∃ place finding, finding ∈ (policy.withRules catalog).report.findingsOf place) :
    PrintedAt loaded [i, j, k] ((policy.withRules catalog).report.format
      (if options.hidesLocation then none else some file.index.place?))

/-- How a check ends that loads files under each of its paths : the reports are written in the
order of their places, a line with the numbers of files, policies and reports comes after
them, and only a strict check fails, if there is a report. -/
def ReportsOn (loaded : List (List PolicyFile)) (outcome : Outcome) : Prop :=
  ∃ printed, ListsAll (options.PrintedAt catalog loaded) printed ∧
    outcome.stdout = String.join (printed.map fun (_, text) => text ++ "\n") ++
      ("Checked " ++ toString (loaded.flatten.map fun file => file.policies.length).sum ++
        " policies in " ++ toString loaded.flatten.length ++ " files, " ++
        toString printed.length ++ " with deprecations") ++ "\n" ∧
    outcome.exitCode = if options.isStrict ∧ 0 < printed.length then 1 else 0

end CheckOptions

theorem CheckResult.stdout_outcome (isStrict : Bool) (result : CheckResult) :
    (result.outcome isStrict).stdout = result.output ++ result.summaryLine ++ "\n" := by
  rw [outcome]
  split <;> rfl

theorem CheckResult.exitCode_outcome (isStrict : Bool) (result : CheckResult) :
    (result.outcome isStrict).exitCode = if isStrict ∧ 0 < result.deprecated then 1 else 0 := by
  simp only [outcome, Bool.and_eq_true, decide_eq_true_iff]
  split <;> rfl

namespace CheckOptions

variable {options : CheckOptions} {catalog : Catalog}

/-- The text that is printed on a policy of a file. -/
def PrintedOn (options : CheckOptions) (catalog : Catalog) (file : PolicyFile) (policy : Policy)
    (place : List Nat) (text : String) : Prop :=
  place = [] ∧ (∃ place finding, finding ∈ (policy.withRules catalog).report.findingsOf place) ∧
    text = file.renderReport options.hidesLocation (policy.withRules catalog).report

theorem standsWithin_printedOn_iff {loaded : List (List PolicyFile)} {place : List Nat}
    {text : String} :
    StandsWithin (StandsWithin (fun file => StandsWithin (options.PrintedOn catalog file) 0
      file.policies) 0) 0 loaded place text ↔ options.PrintedAt catalog loaded place text := by
  constructor
  · rintro ⟨i, _, rfl, files, hfiles, j, _, rfl, file, hfile, k, _, rfl, policy, hpolicy, rfl,
      hfound, rfl⟩
    simp only [Nat.zero_add]
    exact .intro hfiles hfile hpolicy hfound
  · rintro ⟨hfiles, hfile, hpolicy, hfound⟩
    exact ⟨_, _, by rw [Nat.zero_add], _, hfiles, _, _, by rw [Nat.zero_add], _, hfile, _, _,
      by rw [Nat.zero_add], _, hpolicy, rfl, hfound, rfl⟩

/-- What is printed on a policy is its report, if it has a finding. -/
theorem exists_listsAll_printedOn (file : PolicyFile) (policy : Policy) :
    ∃ printed, ListsAll (options.PrintedOn catalog file policy) printed ∧
      printed.map Prod.snd = ([(policy.withRules catalog).report].filter
        Report.hasDeprecations).map (file.renderReport options.hidesLocation) := by
  by_cases hfound : (policy.withRules catalog).report.hasDeprecations
  · refine ⟨[([], file.renderReport options.hidesLocation (policy.withRules catalog).report)],
      ⟨List.pairwise_singleton _ _, fun place text => ?_⟩, ?_⟩
    · rw [List.mem_singleton, Prod.mk.injEq]
      exact and_congr_right fun _ => (and_iff_right (Report.hasDeprecations_iff.1 hfound)).symm
    · rw [List.filter_cons_of_pos hfound]
      rfl
  · refine ⟨[], ⟨.nil, fun place text => iff_of_false List.not_mem_nil ?_⟩, ?_⟩
    · rintro ⟨-, h, -⟩
      exact hfound (Report.hasDeprecations_iff.2 h)
    · rw [List.filter_cons_of_neg hfound]
      rfl

/-- The reports with findings are listed in the order of paths, files and policies. -/
theorem exists_listsAll_printedAt (options : CheckOptions) (catalog : Catalog)
    (loaded : List (List PolicyFile)) :
    ∃ printed, ListsAll (options.PrintedAt catalog loaded) printed ∧
      printed.map Prod.snd =
        loaded.flatten.flatMap (PolicyFile.deprecatedReports options.hidesLocation catalog) := by
  have hfile : ∀ file : PolicyFile, ∃ printed,
      ListsAll (StandsWithin (options.PrintedOn catalog file) 0 file.policies) printed ∧
        printed.map Prod.snd = file.deprecatedReports options.hidesLocation catalog := by
    intro file
    have hreports : file.reports catalog =
        file.policies.flatMap fun policy => [(policy.withRules catalog).report] :=
      List.map_eq_flatMap
    rw [PolicyFile.deprecatedReports, hreports, List.filter_flatMap, List.map_flatMap]
    exact exists_listsAll_standsWithin fun policy _ => exists_listsAll_printedOn file policy
  have hfiles := exists_listsAll_standsWithin fun (files : List PolicyFile) (_ : files ∈ loaded) =>
    exists_listsAll_standsWithin fun file (_ : file ∈ files) => hfile file
  obtain ⟨printed, hprinted, hmap⟩ := hfiles
  refine ⟨printed, ⟨hprinted.sorted, fun place text => ?_⟩, ?_⟩
  · rw [hprinted.mem_iff, standsWithin_printedOn_iff]
  · rw [hmap, List.flatten_eq_flatMap, List.flatMap_assoc]
    rfl

/-- A check that loads all files reports on them. -/
theorem reportsOn_outcome (options : CheckOptions) (catalog : Catalog)
    (loaded : List (List PolicyFile)) :
    options.ReportsOn catalog loaded
      ((CheckResult.ofFiles options.hidesLocation catalog loaded.flatten).outcome
        options.isStrict) := by
  obtain ⟨printed, hprinted, hmap⟩ := exists_listsAll_printedAt options catalog loaded
  have hresult : CheckResult.ofFiles options.hidesLocation catalog loaded.flatten = {
      files := loaded.flatten.length
      policies := (loaded.flatten.map fun file => file.policies.length).sum
      deprecated := printed.length
      output := String.join (printed.map fun (_, text) => text ++ "\n") } := by
    rw [CheckResult.ofFiles, ← hmap, List.length_flatMap]
    simp only [List.length_map, List.map_map, Function.comp_def]
  rw [hresult]
  exact ⟨printed, hprinted, CheckResult.stdout_outcome _ _, CheckResult.exitCode_outcome _ _⟩

end CheckOptions

/-! ## The run of a check -/

namespace Invocation

variable {files : Files} {userPath : Option String} {options : CheckOptions} {catalog : Catalog}
  {registry : Registry}

theorem run_check_of_ok {result : CheckResult}
    (hcatalog : (Catalog.load files userPath options.catalog).run.run {} = (.ok catalog, registry))
    (hresult : options.check files catalog = .ok result) :
    run files userPath (.check options) = result.outcome options.isStrict := by
  simp only [run, Outcome.ofCatalog, hcatalog, hresult]

theorem run_check_of_error {error : CommandError}
    (hcatalog : (Catalog.load files userPath options.catalog).run.run {} = (.ok catalog, registry))
    (herror : options.check files catalog = .error error) :
    run files userPath (.check options) = .ofError error "" := by
  simp only [run, Outcome.ofCatalog, hcatalog, herror]

end Invocation

end PolicyLint
