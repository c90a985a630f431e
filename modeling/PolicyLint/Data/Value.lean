import PolicyLint.Decimal.Binary64

/-!
# Untyped data

`Value` is what a policy document holds where no schema speaks : text, numbers, lists and
mappings from text. The entries of a mapping stand in the order of their keys, each key once
(`Mapping.insert` keeps that).
-/

namespace PolicyLint

/-- A whole or a floating point number. -/
inductive Number
  | int (value : Int)
  | float (value : Binary64)
deriving DecidableEq, Repr

/-- Untyped data. -/
inductive Value
  | null
  | boolean (value : Bool)
  | number (value : Number)
  | string (value : String)
  | list (items : List Value)
  | mapping (entries : List (String × Value))
deriving Repr, Inhabited

/-- Untyped data by key, in the order of the keys. -/
abbrev Mapping := List (String × Value)

namespace Value

/-- The text of a string. -/
def string? : Value → Option String
  | string value => some value
  | _ => none

/-- The items of a list. -/
def list? : Value → Option (List Value)
  | list items => some items
  | _ => none

/-- The entries of a mapping. -/
def mapping? : Value → Option Mapping
  | mapping entries => some entries
  | _ => none

end Value

namespace Mapping

/-- The value of a key. -/
def get? (data : Mapping) (key : String) : Option Value :=
  data.lookup key

/-- Whether there is a value for a key. -/
def hasKey (data : Mapping) (key : String) : Bool :=
  data.any (·.1 == key)

/-- The value of a key, if it is a string. -/
def string? (data : Mapping) (key : String) : Option String :=
  (data.get? key).bind Value.string?

/-- The mapping with `value` for `key`, whatever it was before. -/
def insert (key : String) (value : Value) : Mapping → Mapping
  | [] => [(key, value)]
  | (k, v) :: data =>
    if key < k then (key, value) :: (k, v) :: data
    else if key = k then (key, value) :: data
    else (k, v) :: insert key value data

/-- The mapping with the given entries; of several for one key the last counts. -/
def ofEntries (entries : List (String × Value)) : Mapping :=
  entries.foldl (fun data (key, value) => data.insert key value) []

end Mapping

end PolicyLint
