import PolicyLint.Catalog.Basic

/-!
# The rules of a policy

`Policy.withRules` finds for every element of a policy the rules that a catalog declares for
it. Filters and actions are written as a type name alone or as a mapping. Filters may stand in
blocks for `or`, `and` and `not`, which are passed over for the filters in them
(`filterLeaves`); an entry that is neither a name nor a mapping is passed over too. What is
found in a filter or an action carries its type name as a label.
-/

namespace PolicyLint

/-- A filter, an action or a mode as a policy has it : its type and its data. -/
structure PolicyElement where
  typeName : String
  data : Mapping

namespace PolicyElement

/-- The mode of a policy that names none. -/
def defaultMode : String := "pull"

/-- The type of a filter that names none. -/
def valueFilter : String := "value"

/-- The keys of the blocks that combine filters. -/
def blockKeys : List String :=
  ["or", "and", "not"]

/-- An element of which only the type is written. -/
def ofName (name : String) : PolicyElement :=
  ⟨name, [("type", .string name)]⟩

/-- The filter in a mapping. -/
def ofFilterData (data : Mapping) : PolicyElement :=
  ⟨(data.string? "type").getD valueFilter, data⟩

mutual

/-- The filters of an entry, from left to right : those of a block, or the entry itself. -/
def filterLeaves : Value → List PolicyElement
  | .string name => [ofName name]
  | .mapping [(key, .list items)] =>
    if blockKeys.contains key then filterLeavesOf items
    else [ofFilterData [(key, .list items)]]
  | .mapping data => [ofFilterData data]
  | _ => []

/-- The filters of a list of entries, from left to right. -/
def filterLeavesOf : List Value → List PolicyElement
  | [] => []
  | entry :: entries => filterLeaves entry ++ filterLeavesOf entries

end

/-- The action of an entry. It must name its type. -/
def action? : Value → Option PolicyElement
  | .string name => some (ofName name)
  | .mapping data => (Mapping.string? data "type").map fun name => ⟨name, data⟩
  | _ => none

/-- The execution mode in the block for it. -/
def ofMode (block : Option Mapping) : PolicyElement :=
  ⟨(block.bind fun data => data.string? "type").getD defaultMode, block.getD []⟩

end PolicyElement

namespace Policy

/-- The filters of a policy, from left to right. -/
def filterElements (policy : Policy) : List PolicyElement :=
  PolicyElement.filterLeavesOf policy.filters

/-- The actions of a policy, in order. -/
def actionElements (policy : Policy) : List PolicyElement :=
  policy.actions.filterMap PolicyElement.action?

/-- The execution mode of a policy. -/
def modeElement (policy : Policy) : PolicyElement :=
  PolicyElement.ofMode policy.mode

end Policy

/-! ## Rules of elements -/

/-- An element of a policy with the rules of its type, and the label of what is found in it. -/
structure RuledElement where
  typeName : String
  label : Option String
  data : Mapping
  rules : List Rule

namespace RuledElement

/-- An element with the rules of its type, of which there are none if the type is unknown. -/
def ofType (label : Option String) (element : PolicyElement) (type : Option ElementType) :
    RuledElement where
  typeName := element.typeName
  label := label
  data := element.data
  rules := (type.map ElementType.rules).getD []

/-- An element whose findings carry its type name. -/
def labelled (element : PolicyElement) (type : Option ElementType) : RuledElement :=
  ofType (some (element.typeName ++ ":")) element type

/-- The element as a subject of findings. -/
def subject (element : RuledElement) : Subject :=
  ⟨element.rules, some element.data, element.label⟩

end RuledElement

/-- A policy with the rules of all its elements. The rules on the policy, on its condition
block and on its resource type are checked against all of its data. -/
structure RuledPolicy where
  policy : Policy
  policyRules : List Rule
  conditionRules : List Rule
  mode : RuledElement
  resourceRules : List Rule
  filters : List RuledElement
  actions : List RuledElement

/-- A policy with the rules that a catalog declares for its elements. -/
def Policy.withRules (policy : Policy) (catalog : Catalog) : RuledPolicy where
  policy := policy
  policyRules := catalog.policyRules
  conditionRules := catalog.conditionRules
  mode :=
    let mode := policy.modeElement
    .ofType none mode (catalog.mode? mode.typeName)
  resourceRules := catalog.resourceRules policy.resourceType
  filters := policy.filterElements.map fun filter =>
    .labelled filter (catalog.filter? policy.resourceType filter.typeName)
  actions := policy.actionElements.map fun action =>
    .labelled action (catalog.action? policy.resourceType action.typeName)

namespace RuledPolicy

variable (ruled : RuledPolicy)

/-- Rules that are checked against all of the policy. -/
def whole (rules : List Rule) : Subject :=
  ⟨rules, some ruled.policy.data, none⟩

/-- The elements of the policy. -/
def subject : PolicySubject where
  name := ruled.policy.name
  own := ruled.whole ruled.policyRules
  conditions := some (ruled.whole ruled.conditionRules)
  mode := some ruled.mode.subject
  resource := some {
    own := ruled.whole ruled.resourceRules
    filters := ruled.filters.map RuledElement.subject
    actions := ruled.actions.map RuledElement.subject }

/-- The report on the policy. -/
def report : Report :=
  ruled.subject.report

end RuledPolicy

end PolicyLint
