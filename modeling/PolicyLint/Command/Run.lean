import PolicyLint.Catalog.Builtin
import PolicyLint.Catalog.Text
import PolicyLint.Command.Arguments
import PolicyLint.Command.Outcome
import PolicyLint.Policy.File

/-!
# The commands

`Invocation.run` is a whole run of the program on given files : `check` reports the deprecated
usage in policy files, `rules` lists the rules it knows, and `version` names the program. The
rules are those of the builtin catalog, and after them those of a catalog that is named, or
else of the catalog of the user if there is one.

A check counts files and policies and collects its reports as it goes. They are written at the
end, so that a run that fails writes no report.
-/

namespace PolicyLint

/-! ## Catalogs -/

/-- The catalog in the file at a path. -/
def Catalog.ofFile (files : Files) (path : String) : Construction LoadError Catalog := do
  let text ← Construction.ofExcept (files.readText path)
  ofText text

/-- The builtin catalog, and after it the one at `path`, or at `userPath` if there is a file
and no `path`. -/
def Catalog.load (files : Files) (userPath path : Option String) :
    Construction CommandError Catalog := do
  let builtin ← Catalog.builtin.mapError .builtinCatalog
  match path <|> userPath.filter files.isFile with
  | some path =>
    let other ← (Catalog.ofFile files path).mapError (.catalog path)
    return builtin.extend other
  | none => return builtin

/-! ## Check -/

/-- The text of a report on a policy of a file. -/
def PolicyFile.renderReport (hidesLocation : Bool) (file : PolicyFile)
    (report : Report) : String :=
  report.format (if hidesLocation then none else some file.index.place?)

/-- What a check found so far : the numbers of files, of policies and of policies with findings,
and the reports on those. -/
structure CheckResult where
  files : Nat := 0
  policies : Nat := 0
  deprecated : Nat := 0
  output : String := ""
deriving DecidableEq, Repr

namespace CheckResult

/-- The line after the reports. -/
def summaryLine (result : CheckResult) : String :=
  "Checked " ++ toString result.policies ++ " policies in " ++ toString result.files ++
    " files, " ++ toString result.deprecated ++ " with deprecations"

/-- Count a policy, and write the report on it if it has findings. -/
def addReport (render : Report → String) (result : CheckResult) (report : Report) :
    CheckResult :=
  let result := { result with policies := result.policies + 1 }
  if !report.hasDeprecations then result
  else
    { result with
      deprecated := result.deprecated + 1
      output := result.output ++ render report ++ "\n" }

/-- Count a file, and its policies one after the other. -/
def addFile (hidesLocation : Bool) (catalog : Catalog) (result : CheckResult)
    (file : PolicyFile) : CheckResult :=
  let result := { result with files := result.files + 1 }
  (file.reports catalog).foldl (addReport (file.renderReport hidesLocation)) result

end CheckResult

/-- Check the policy files under a path, up to the first that does not load. -/
def CheckOptions.checkPath (options : CheckOptions) (files : Files) (catalog : Catalog)
    (result : CheckResult) (path : String) : Except CommandError CheckResult := do
  let found ← (FileSearch.policyFiles {} files path).mapError (.discovery path)
  found.foldlM (fun result file => do
    let loaded ← (PolicyFile.ofFound file).mapError (.policies file.path)
    return result.addFile options.hidesLocation catalog loaded) result

/-- Check the policy files that paths lead to, path after path. -/
def CheckOptions.check (options : CheckOptions) (files : Files) (catalog : Catalog) :
    Except CommandError CheckResult :=
  options.paths.foldlM (options.checkPath files catalog) {}

/-- How a check ends that found something. -/
def CheckResult.outcome (isStrict : Bool) (result : CheckResult) : Outcome :=
  let stdout := result.output ++ result.summaryLine ++ "\n"
  if isStrict && 0 < result.deprecated then
    .ofError (.deprecated result.deprecated) stdout
  else { exitCode := 0, stdout }

/-! ## Rules -/

/-- The scope of a rule : the section it contributes to, and the element that declares it. -/
def ListedRule.scope (listed : ListedRule) : String :=
  if listed.element.isEmpty then listed.place.label
  else listed.place.label ++ " " ++ listed.element

/-- The lines on a rule : what it says, when it is removed, and where to read more. -/
def ListedRule.lines (listed : ListedRule) : List String :=
  let rule := listed.rule
  ("#" ++ toString rule.id ++ " [" ++ listed.scope ++ "] " ++ rule.describe) ::
    (rule.removedAfter.map fun date => "    removed after " ++ date.text).toList ++
    (rule.link.map fun link => "    see " ++ link).toList

/-- The rules of a catalog and their number. -/
def Catalog.render (catalog : Catalog) : String :=
  let lines := catalog.rules.flatMap ListedRule.lines ++
    [toString catalog.rules.length ++ " rules"]
  String.join (lines.map (· ++ "\n"))

/-! ## Runs -/

/-- The name and the version of the program. -/
def versionText : String :=
  "custos 0.1.0"

/-- The outcome of a step on the catalog, the numbers of whose rules start at 1. -/
def Outcome.ofCatalog (catalog : Construction CommandError Catalog)
    (next : Catalog → Outcome) : Outcome :=
  match (catalog.run.run {}).1 with
  | .ok catalog => next catalog
  | .error error => .ofError error ""

/-- A run of the program on files, with the path of the catalog of the user. -/
def Invocation.run (files : Files) (userPath : Option String) : Invocation → Outcome
  | .version => { exitCode := 0, stdout := versionText ++ "\n" }
  | .rules path =>
    .ofCatalog (Catalog.load files userPath path) fun catalog =>
      { exitCode := 0, stdout := catalog.render }
  | .check options =>
    .ofCatalog (Catalog.load files userPath options.catalog) fun catalog =>
      match options.check files catalog with
      | .ok result => result.outcome options.isStrict
      | .error error => .ofError error ""

/-- A run of the program with a command line. One that is not understood ends with 2. -/
def Outcome.ofArguments (files : Files) (userPath environment : Option String)
    (arguments : List String) : Outcome :=
  match Invocation.ofArguments? environment arguments with
  | some invocation => invocation.run files userPath
  | none => { exitCode := 2 }

end PolicyLint
