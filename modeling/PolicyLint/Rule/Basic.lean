import PolicyLint.Data.Value
import PolicyLint.Rule.Date

/-!
# Deprecation rules

A `Rule` describes one discouraged usage in a policy : `RuleKind` says what it is, `appliesTo`
recognises it in the data of a policy element, and `describe` puts it into words. Rules are
told apart by a number that they get when they are constructed.
-/

namespace PolicyLint

/-- The kinds of policy elements that a rule may supersede. -/
inductive ElementKind
  | filter
  | action
  | mode
  | resource
deriving DecidableEq, Repr

namespace ElementKind

/-- The name of a kind. -/
def name : ElementKind → String
  | filter => "filter"
  | action => "action"
  | mode => "mode"
  | resource => "resource"

/-- All kinds. -/
def all : List ElementKind :=
  [filter, action, mode, resource]

/-- The kind with a name. -/
def ofName? (name : String) : Option ElementKind :=
  all.find? fun kind => kind.name == name

end ElementKind

/-- The usage that a rule discourages : the type name of a filter or action, a key that is
replaced, a whole element that is superseded, or leaving out all of several fields of which
one will be required. -/
inductive RuleKind
  | typeAlias (name : String)
  | field (name replacement : String)
  | element (kind : ElementKind) (name replacement : String)
  | optionality (fields : List String)
deriving DecidableEq, Repr

namespace RuleKind

/-- The name of a kind. -/
def name : RuleKind → String
  | typeAlias _ => "alias"
  | field .. => "field"
  | element .. => "element"
  | optionality _ => "optionality"

/-- Whether an element with this data is used as the rule discourages. That a superseded
element is there at all is enough. -/
def appliesTo (data : Mapping) : RuleKind → Bool
  | typeAlias name => data.string? "type" == some name
  | field name _ => data.hasKey name
  | element .. => true
  | optionality fields => fields.all fun field => !data.hasKey field

/-- A name in single quotes. -/
def quote (name : String) : String :=
  "'" ++ name ++ "'"

/-- What replaces a field : a word is the name of another field, anything else a phrase. -/
def replacementText (replacement : String) : String :=
  if replacement.toList.contains ' ' then replacement else quote replacement

/-- The usage in words. -/
def describe : RuleKind → String
  | typeAlias name => "alias " ++ quote name ++ " has been deprecated"
  | field name replacement =>
    "field " ++ quote name ++ " has been deprecated (replaced by " ++
      replacementText replacement ++ ")"
  | element kind name replacement =>
    kind.name ++ " " ++ quote name ++ " has been deprecated (" ++ replacement ++ ")"
  | optionality [name] =>
    "optional field " ++ quote name ++ " deprecated (must be specified)"
  | optionality fields =>
    "optional fields deprecated (one of " ++ " or ".intercalate (fields.map quote) ++
      " must be specified)"

end RuleKind

/-- A deprecation rule : its number, the usage it discourages, when that is to be removed, and
where to read more. -/
structure Rule where
  id : Nat
  kind : RuleKind
  removedAfter : Option RemovalDate := none
  link : Option String := none
deriving DecidableEq

namespace Rule

/-- Whether an element with this data is used as the rule discourages. -/
def appliesTo (rule : Rule) (data : Mapping) : Bool :=
  rule.kind.appliesTo data

/-- The rule in words. -/
def describe (rule : Rule) : String :=
  rule.kind.describe

/-- The rule with a link. -/
def withLink (link : String) (rule : Rule) : Rule :=
  { rule with link := some link }

end Rule

end PolicyLint
