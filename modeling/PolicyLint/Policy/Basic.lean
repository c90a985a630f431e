import PolicyLint.LoadError
import PolicyLint.Text.Blank
import PolicyLint.Yaml.Tree

/-!
# Policies

A policy file holds a list of policies under `policies`. Each policy is a mapping with a name
and a resource type, and everything else in it stays untyped (`Policy`).
`Policy.listOfText` reads the text of a file : all of its policies, or the error of the first
that is not one.
-/

namespace PolicyLint

namespace ResourceName

/-- The provider of resource types that name none. -/
def defaultProvider : String := "aws"

/-- A resource type with its provider. -/
def normalize (resource : String) : String :=
  if resource.toList.contains '.' then resource else defaultProvider ++ "." ++ resource

end ResourceName

/-- A policy : its name, its resource type with the provider, and its data. -/
structure Policy where
  name : String
  resourceType : String
  data : Mapping

namespace Policy

/-! ## Parts -/

variable (policy : Policy)

/-- The list under a key, empty if there is none. -/
def list (key : String) : List Value :=
  ((policy.data.get? key).bind Value.list?).getD []

/-- The entries for filters. -/
def filters : List Value :=
  policy.list "filters"

/-- The entries for actions. -/
def actions : List Value :=
  policy.list "actions"

/-- The block for the execution mode, if there is one. -/
def mode : Option Mapping :=
  (policy.data.get? "mode").bind Value.mapping?

/-! ## Reading -/

/-- The string that the policy with a number must have under a key. -/
def requiredString (index : Nat) (data : Mapping) (key : String) : Except LoadError String :=
  match data.string? key with
  | some value => .ok value
  | none => .error (.missingField index key)

/-- The policy with a number, from its data. -/
def ofData (index : Nat) (data : Mapping) : Except LoadError Policy := do
  let name ← requiredString index data "name"
  let resource ← requiredString index data "resource"
  return ⟨name, ResourceName.normalize resource, data⟩

/-- The policy with a number, which must be a mapping. -/
def ofValue (index : Nat) : Value → Except LoadError Policy
  | .mapping data => ofData index data
  | value => .error (.notMapping index value)

/-- The policies of a list, the first of which has the number `index`. -/
def listOfValues (index : Nat) : List Value → Except LoadError (List Policy)
  | [] => .ok []
  | value :: values => do
    let policy ← ofValue index value
    let policies ← listOfValues (index + 1) values
    return policy :: policies

/-- The entries of the list of policies in a text. A text without a document, and a document
without the list, have none. -/
def entries? (text : String) : Option (List Value) := do
  let tree ← Yaml.Tree.ofText? (· == "policies") text
  let fields ← tree.fields? ["policies"]
  Yaml.Tree.listField? Yaml.Tree.data? "policies" fields

/-- The policies in the text of a policy file. -/
def listOfText (text : String) : Except LoadError (List Policy) :=
  if Text.isBlank text then .ok []
  else
    match entries? text with
    | some values => listOfValues 1 values
    | none => .error .malformed

end Policy

end PolicyLint
