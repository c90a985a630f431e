import PolicyLint.Rule.Basic

/-!
# Findings

A `Finding` is a rule that a policy breaks, with a label for the element that breaks it. A
`Subject` is an element of a policy as far as rules are concerned : the rules it declares and
the data they are checked against. `Subject.check` lists the declared rules that apply, in the
order of their declaration.
-/

namespace PolicyLint

/-- A rule that applies, and the label of the element it applies to. -/
structure Finding where
  rule : Rule
  label : Option String := none
deriving DecidableEq

namespace Finding

/-- The number of the rule. -/
def id (finding : Finding) : Nat :=
  finding.rule.id

/-- The finding in words, after its label. -/
def describe (finding : Finding) : String :=
  match finding.label with
  | none => finding.rule.describe
  | some label => label ++ " " ++ finding.rule.describe

end Finding

/-- An element that declares rules : what they are checked against, and the label for what
they find. -/
structure Subject where
  rules : List Rule := []
  data : Option Mapping := none
  label : Option String := none

namespace Subject

/-- The rules that apply to `override`, or to the data of the element if there is none, or to
no data at all, with a label. -/
def check (subject : Subject) (label : Option String) (override : Option Mapping) :
    List Finding :=
  let data := (override <|> subject.data).getD []
  (subject.rules.filter fun rule => rule.appliesTo data).map fun rule => ⟨rule, label⟩

/-- The rules that apply to the data of the element. -/
def findings (subject : Subject) : List Finding :=
  subject.check subject.label none

end Subject

end PolicyLint
