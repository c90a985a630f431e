import Mathlib.Data.List.Induction
import PolicyLint.Command.Run
import PolicyLint.Proofs.FirstFailure

/-!
# What a check counts

A check goes through its paths, the files under them and the policies of these, and counts and
collects what it finds as it goes. `CheckResult.ofFiles` says what this comes to for given files,
with nothing left of the order in which it was counted.

One more file adds to that what it would find alone (`CheckResult.addFile_ofFiles`), so that the
files of a check come to it one after the other (`CheckResult.foldl_addFile`).

Main statement : a check loads the files under all its paths, up to the first failure, and finds
what there is in them (`CheckOptions.check_eq`).
-/

namespace PolicyLint

/-! ## What there is in files -/

/-- The policy files that a path leads to, loaded. -/
def PolicyFile.under (files : Files) (path : String) :
    Except CommandError (List PolicyFile) := do
  let found ← (FileSearch.policyFiles {} files path).mapError (.discovery path)
  found.mapM fun file => (ofFound file).mapError (.policies file.path)

/-- The texts of the reports with findings on the policies of a file. -/
def PolicyFile.deprecatedReports (hidesLocation : Bool) (catalog : Catalog)
    (file : PolicyFile) : List String :=
  ((file.reports catalog).filter Report.hasDeprecations).map (file.renderReport hidesLocation)

/-- What a check finds in policy files. -/
def CheckResult.ofFiles (hidesLocation : Bool) (catalog : Catalog) (files : List PolicyFile) :
    CheckResult :=
  let reports := files.flatMap (PolicyFile.deprecatedReports hidesLocation catalog)
  { files := files.length
    policies := (files.flatMap PolicyFile.policies).length
    deprecated := reports.length
    output := String.join (reports.map (· ++ "\n")) }

/-! ## File after file -/

namespace CheckResult

variable (hidesLocation : Bool) (catalog : Catalog)

/-- The reports on a file are counted one after the other, and those with findings written. -/
theorem foldl_addReport (render : Report → String) (reports : List Report)
    (result : CheckResult) : reports.foldl (addReport render) result = { result with
      policies := result.policies + reports.length
      deprecated := result.deprecated + (reports.filter Report.hasDeprecations).length
      output := result.output ++ String.join ((reports.filter Report.hasDeprecations).map
        fun report => render report ++ "\n") } := by
  induction reports generalizing result with
  | nil => simp
  | cons report reports ih =>
    rw [List.foldl_cons, ih, addReport]
    by_cases hfound : report.hasDeprecations
    · simp [hfound, Nat.add_assoc, Nat.add_comm 1, String.append_assoc]
    · simp [hfound, Nat.add_assoc, Nat.add_comm 1]

/-- One more file adds what there is in it. -/
theorem addFile_ofFiles (files : List PolicyFile) (file : PolicyFile) :
    (ofFiles hidesLocation catalog files).addFile hidesLocation catalog file =
      ofFiles hidesLocation catalog (files ++ [file]) := by
  have hreports : (file.reports catalog).length = file.policies.length := List.length_map _
  rw [addFile, foldl_addReport, hreports]
  simp [ofFiles, PolicyFile.deprecatedReports, Function.comp_def]

theorem foldl_addFile (files : List PolicyFile) :
    files.foldl (addFile hidesLocation catalog) {} = ofFiles hidesLocation catalog files := by
  induction files using List.reverseRecOn with
  | nil => rfl
  | append_singleton files file ih => rw [List.foldl_concat, ih, addFile_ofFiles]

end CheckResult

/-! ## Path after path -/

namespace CheckOptions

variable (options : CheckOptions) (files : Files) (catalog : Catalog)

theorem checkPath_eq (result : CheckResult) (path : String) :
    options.checkPath files catalog result path = (do
      return (← PolicyFile.under files path).foldl
        (CheckResult.addFile options.hidesLocation catalog) result) := by
  unfold checkPath PolicyFile.under
  cases FileSearch.policyFiles {} files path with
  | error error => rfl
  | ok found => exact foldlM_eq_mapM found result

/-- A check finds what there is in the files under its paths, or ends at the first failure. -/
theorem check_eq : options.check files catalog = (do
      let loaded ← options.paths.mapM (PolicyFile.under files)
      return .ofFiles options.hidesLocation catalog loaded.flatten) := by
  have hpaths : options.checkPath files catalog = fun result path => do
      return (← PolicyFile.under files path).foldl
        (CheckResult.addFile options.hidesLocation catalog) result := by
    funext result path
    exact options.checkPath_eq files catalog result path
  rw [check, hpaths, foldlM_eq_mapM]
  simp only [← List.foldl_flatten, CheckResult.foldl_addFile]

end CheckOptions

end PolicyLint
