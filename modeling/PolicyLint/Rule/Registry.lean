import PolicyLint.Data.Json
import PolicyLint.Rule.Basic

/-!
# Constructing rules

Rules are constructed one after the other through a `Registry`, which numbers them from 1. A
construction that fails takes no number and leaves the registry as it is. It fails if the
removal date is no date, or if a rule on optional fields names no field (`RuleError`).

`Rule.typeAlias`, `Rule.field` and so on construct the rules of each kind; the removal date is
read before anything else is looked at.
-/

namespace PolicyLint

/-- Why a rule cannot be constructed. -/
inductive RuleError
  | invalidRemovalDate (text : String)
  | removalDateNotString (value : Value)
  | emptyFieldSet

namespace RuleError

/-- The error in words. -/
def message : RuleError → String
  | invalidRemovalDate text =>
    "removed_after must be a valid date in the format 'YYYY-MM-DD', got '" ++ text ++ "'"
  | removalDateNotString value => "removed_after must be a string, got " ++ value.json
  | emptyFieldSet => "optional field rule must name at least one field"

end RuleError

/-- The number of the next rule. It is not bounded. -/
structure Registry where
  next : Nat := 1
deriving DecidableEq, Repr

/-- A step that numbers rules and may fail with an `ε`, keeping the numbers it has used. -/
abbrev Construction (ε : Type) := ExceptT ε (StateM Registry)

namespace Construction

variable {ε δ α : Type}

/-- A step with its error restated. -/
def mapError (f : ε → δ) (step : Construction ε α) : Construction δ α :=
  ExceptT.adapt f step

/-- A result that needs no registry. -/
def ofExcept : Except ε α → Construction ε α
  | .ok value => pure value
  | .error error => throw error

end Construction

namespace RemovalDate

/-- The date that a text is. -/
def parse (text : String) : Except RuleError RemovalDate :=
  match ofText? text with
  | some date => .ok date
  | none => .error (.invalidRemovalDate text)

/-- The date in untyped data; a null is no date. -/
def ofValue : Value → Except RuleError (Option RemovalDate)
  | .null => .ok none
  | .string text => (parse text).map some
  | value => .error (.removalDateNotString value)

/-- The date that a text is, if there is one. -/
def parseOptional : Option String → Except RuleError (Option RemovalDate)
  | none => .ok none
  | some text => (parse text).map some

end RemovalDate

/-- The names of a list, each at its first place only. -/
def distinctNames : List String → List String
  | [] => []
  | name :: names => name :: (distinctNames names).filter (· != name)

/-- The kind with repeated field names left out; there must be a field name. -/
def RuleKind.checked : RuleKind → Except RuleError RuleKind
  | optionality [] => .error .emptyFieldSet
  | optionality fields => .ok (optionality (distinctNames fields))
  | kind => .ok kind

/-- Number a rule. -/
def Registry.register (kind : RuleKind) (removedAfter : Option RemovalDate) :
    Construction RuleError Rule := do
  let kind ← Construction.ofExcept kind.checked
  let registry ← getThe Registry
  set { registry with next := registry.next + 1 }
  return { id := registry.next, kind, removedAfter }

namespace Rule

/-- A rule of any kind. -/
def ofKind (kind : RuleKind) (removedAfter : Option String) : Construction RuleError Rule := do
  let removedAfter ← Construction.ofExcept (RemovalDate.parseOptional removedAfter)
  Registry.register kind removedAfter

variable (name replacement : String) (removedAfter : Option String)

/-- The type name of a filter or action is deprecated. -/
def typeAlias : Construction RuleError Rule :=
  ofKind (.typeAlias name) removedAfter

/-- A key is replaced. -/
def field : Construction RuleError Rule :=
  ofKind (.field name replacement) removedAfter

/-- An element is superseded. -/
def element (kind : ElementKind) : Construction RuleError Rule :=
  ofKind (.element kind name replacement) removedAfter

/-- A filter is superseded. -/
def filter : Construction RuleError Rule :=
  element name replacement removedAfter .filter

/-- An action is superseded. -/
def action : Construction RuleError Rule :=
  element name replacement removedAfter .action

/-- An execution mode is superseded. -/
def mode : Construction RuleError Rule :=
  element name replacement removedAfter .mode

/-- One of several fields will be required. -/
def optionalFields (names : List String) : Construction RuleError Rule :=
  ofKind (.optionality names) removedAfter

/-- A field will be required. -/
def optionalField : Construction RuleError Rule :=
  optionalFields removedAfter [name]

end Rule

end PolicyLint
