import PolicyLint.Files.Search
import PolicyLint.Policy.Ruled
import PolicyLint.Policy.LineIndex

/-!
# Policy files

A `PolicyFile` holds the policies of one file with the lines they are declared on.
`PolicyFile.reports` checks them against a catalog.
-/

namespace PolicyLint

/-- The policies of a file, in order, and where they are declared. -/
structure PolicyFile where
  path : String
  policies : List Policy
  index : LineIndex

namespace PolicyFile

/-- The policies in the text of the file at a path. -/
def ofText (path text : String) : Except LoadError PolicyFile := do
  let policies ← Policy.listOfText text
  return ⟨path, policies, LineIndex.ofText path text⟩

/-- The policies in a file that was found. -/
def ofFound (file : FoundFile) : Except LoadError PolicyFile :=
  match file.text with
  | some text => ofText file.path text
  | none => .error (.unreadable file.path .notText)

/-- The policies in the file at a path. -/
def load (files : Files) (path : String) : Except LoadError PolicyFile := do
  let text ← files.readText path
  ofText path text

/-- The reports on the policies, in order. -/
def reports (file : PolicyFile) (catalog : Catalog) : List Report :=
  file.policies.map fun policy => (policy.withRules catalog).report

end PolicyFile

end PolicyLint
