import PolicyLint.LoadError

/-!
# How a command ends

`Outcome` is what a command leaves behind : an exit code and what it wrote. A `CommandError`
says what a command was doing when it failed, and `CommandError.text` shows it with the errors
behind it, numbered if there are several. The lines of an error after its first are indented
as the text of the first is.
-/

namespace PolicyLint

/-- The exit code of a command, and what it wrote to its two outputs. -/
structure Outcome where
  exitCode : Nat
  stdout : String := ""
  stderr : String := ""
deriving DecidableEq, Repr

/-- What a command failed to do. -/
inductive CommandError
  | builtinCatalog (cause : LoadError)
  | catalog (path : String) (cause : LoadError)
  | discovery (path : String) (cause : LoadError)
  | policies (path : String) (cause : LoadError)
  | deprecated (count : Nat)

namespace CommandError

/-- The error in words. -/
def message : CommandError → String
  | builtinCatalog _ => "Failed to load builtin catalog"
  | catalog path _ => "Failed to load catalog " ++ path
  | discovery path _ => "Failed to find policies in " ++ path
  | policies path _ => "Failed to load " ++ path
  | deprecated count => toString count ++ " policies use deprecated features"

/-- The errors behind an error in words, the nearest first. -/
def causes : CommandError → List String
  | builtinCatalog cause => cause.message :: cause.causes
  | catalog _ cause => cause.message :: cause.causes
  | discovery _ cause => cause.message :: cause.causes
  | policies _ cause => cause.message :: cause.causes
  | deprecated _ => []

/-- A text with `indent` put before every line but the first. -/
def indentLines (indent : String) (text : String) : String :=
  String.ofList (text.toList.flatMap fun c => if c = '\n' then c :: indent.toList else [c])

/-- The lines that list causes, from the number `n` on. -/
def numberedLines (n : Nat) : List String → List String
  | [] => []
  | cause :: causes =>
    ("    " ++ toString n ++ ": " ++ indentLines "       " cause) :: numberedLines (n + 1) causes

/-- The lines that list causes. One alone has no number. -/
def causeLines : List String → List String
  | [cause] => ["    " ++ indentLines "    " cause]
  | causes => numberedLines 0 causes

/-- The error with the errors behind it. -/
def text (error : CommandError) : String :=
  let causes :=
    if error.causes.isEmpty then []
    else "" :: "Caused by:" :: causeLines error.causes
  String.join (("Error: " ++ error.message) :: causes |>.map (· ++ "\n"))

end CommandError

/-- The outcome of a command that failed after it wrote `stdout`. -/
def Outcome.ofError (error : CommandError) (stdout : String) : Outcome :=
  ⟨1, stdout, error.text⟩

end PolicyLint
