import PolicyLint.Files.Tree
import PolicyLint.Rule.Registry

/-!
# Why a policy file or a catalog cannot be loaded

`LoadError` lists what may be wrong with a policy file or a catalog. `LoadError.message` puts
an error into words, and `LoadError.causes` lists the errors behind it in words.
-/

namespace PolicyLint

/-- What is wrong with a policy file or a catalog. Policies count from 1. -/
inductive LoadError
  | unreadable (path : String) (cause : ReadError)
  | notMapping (index : Nat) (value : Value)
  | missingField (index : Nat) (field : String)
  | invalidRule (place : String) (cause : RuleError)
  | unnamedElement (place : String)
  | pathMissing (path : String)
  | malformed

namespace LoadError

/-- What is said of a text that is not YAML of the expected shape. -/
def malformedCause : String :=
  "the text does not have the expected form"

/-- The errors behind an error, the nearest first. -/
def causes : LoadError → List String
  | unreadable _ cause => [cause.message]
  | invalidRule _ cause => [cause.message]
  | malformed => [malformedCause]
  | _ => []

/-- The error in words. -/
def message : LoadError → String
  | unreadable path cause => "Failed to read " ++ path ++ ": " ++ cause.message
  | notMapping index value =>
    "Invalid policy document: policy #" ++ toString index ++ " is not a mapping: " ++ value.json
  | missingField index field =>
    "Policy #" ++ toString index ++ " is missing required field '" ++ field ++ "'"
  | invalidRule place cause =>
    "Invalid rule in catalog section '" ++ place ++ "': " ++ cause.message
  | unnamedElement place =>
    "Catalog section '" ++ place ++ "' has an entry without names"
  | pathMissing path => "Discovery error: Path does not exist: " ++ path
  | malformed => "YAML error: " ++ malformedCause

end LoadError

/-- The text of the file at a path. -/
def Files.readText (files : Files) (path : String) : Except LoadError String :=
  (files.read path).mapError (.unreadable path)

end PolicyLint
