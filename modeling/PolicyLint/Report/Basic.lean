import PolicyLint.Report.Finding

/-!
# Reports

A `Report` holds what was found in one policy, in six sections (`Section`). `Report.render`
writes it down : a header with the name of the policy and its location, and under it the
sections that are not empty. A section with one finding takes one line, and one with more
takes a line for its label and a line for each finding.

`PolicySubject.report` gathers a report from the elements of a policy.
-/

namespace PolicyLint

/-- A section of a report. -/
inductive Section
  | attributes
  | condition
  | mode
  | resource
  | filters
  | actions
deriving DecidableEq, Repr

namespace Section

/-- All sections, in the order of a report. -/
def all : List Section :=
  [attributes, condition, mode, resource, filters, actions]

/-- The label of a section. -/
def label : Section → String
  | attributes => "attributes"
  | condition => "condition"
  | mode => "mode"
  | resource => "resource"
  | filters => "filters"
  | actions => "actions"

end Section

/-- What was found in one policy : in its own fields, its condition block, its mode, its
resource type, its filters and its actions. -/
structure Report where
  policyName : String
  policyFields : List Finding := []
  conditions : List Finding := []
  mode : List Finding := []
  resource : List Finding := []
  filters : List Finding := []
  actions : List Finding := []
deriving DecidableEq

namespace Report

variable (report : Report)

/-! ## Sections -/

/-- The findings of a section. -/
def findingsOf : Section → List Finding
  | .attributes => report.policyFields
  | .condition => report.conditions
  | .mode => report.mode
  | .resource => report.resource
  | .filters => report.filters
  | .actions => report.actions

/-- All findings, section after section. -/
def findings : List Finding :=
  Section.all.flatMap report.findingsOf

/-- Whether anything was found. Filters and actions are the most likely places. -/
def hasDeprecations : Bool :=
  !report.filters.isEmpty || !report.actions.isEmpty || !report.policyFields.isEmpty ||
    !report.conditions.isEmpty || !report.resource.isEmpty || !report.mode.isEmpty

/-- Whether nothing was found. -/
def isEmpty : Bool :=
  !report.hasDeprecations

/-- The number of findings. -/
def length : Nat :=
  Section.all.foldl (fun n s => n + (report.findingsOf s).length) 0

/-- Ascending numbers with another put in, unless it is there. -/
def insertId (n : Nat) : List Nat → List Nat
  | [] => [n]
  | m :: ids => if n < m then n :: m :: ids else if n = m then m :: ids else m :: insertId n ids

/-- The numbers of the rules that were found, each once, in ascending order. -/
def ruleIds : List Nat :=
  report.findings.foldr (fun finding => insertId finding.id) []

/-! ## Text -/

/-- The lines of a section. -/
def sectionLines (label : String) : List Finding → List String
  | [] => []
  | [finding] => ["  " ++ label ++ ": " ++ finding.describe]
  | findings => ("  " ++ label ++ ":") :: findings.map fun finding => "    " ++ finding.describe

/-- The location of a policy as the header shows it. -/
def locationText : Option String → String
  | none => ""
  | some location => if location.isEmpty then "" else " (" ++ location ++ ")"

/-- The first line of a report. -/
def header (location : Option String) : String :=
  "policy '" ++ report.policyName ++ "'" ++ locationText location

/-- The lines of a report. -/
def lines (location : Option String) : List String :=
  report.header location ::
    Section.all.flatMap fun s => sectionLines s.label (report.findingsOf s)

/-- The text of a report on a policy at `location`. -/
def render (location : Option String) : String :=
  "\n".intercalate (report.lines location)

/-- The text of a report. The location of the policy is what `locate` says of its name. -/
def format (locate : Option (String → Option String)) : String :=
  report.render (locate.bind fun find => find report.policyName)

end Report

/-! ## Gathering -/

/-- A resource type with the filters and the actions of a policy. -/
structure ResourceSubject where
  own : Subject := {}
  filters : List Subject := []
  actions : List Subject := []

/-- The elements of a policy. -/
structure PolicySubject where
  name : String
  own : Subject := {}
  conditions : Option Subject := none
  mode : Option Subject := none
  resource : Option ResourceSubject := none

/-- The report on a policy : what was found in each of its elements, filters and actions in
the order of the policy. -/
def PolicySubject.report (policy : PolicySubject) : Report where
  policyName := policy.name
  policyFields := policy.own.findings
  conditions := (policy.conditions.map Subject.findings).getD []
  mode := (policy.mode.map Subject.findings).getD []
  resource := (policy.resource.map fun r => r.own.findings).getD []
  filters := (policy.resource.map fun r => r.filters.flatMap Subject.findings).getD []
  actions := (policy.resource.map fun r => r.actions.flatMap Subject.findings).getD []

end PolicyLint
