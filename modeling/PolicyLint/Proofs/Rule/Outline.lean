import PolicyLint.NameMap
import PolicyLint.Rule.Basic

/-!
# What rules read of data

A rule reads which keys data have, and the text under `type` if there is one. Data that agree in
this have the same outline (`Mapping.SameOutline`), and the same rules apply to them
(`RuleKind.appliesTo_congr`). `Mapping.outline` keeps the outline of data and nothing else.
-/

namespace PolicyLint

namespace Mapping

variable {data data' : Mapping}

/-- Data with the same keys and the same text under `type`, or none in both. -/
structure SameOutline (data data' : Mapping) : Prop where
  hasKey : ∀ key, data.hasKey key = data'.hasKey key
  type : data.string? "type" = data'.string? "type"

/-! ## Data with other values -/

/-- The data with every value changed in a way that depends on its key. -/
def mapValues (change : String → Value → Value) (data : Mapping) : Mapping :=
  data.map fun (key, value) => (key, change key value)

variable (change : String → Value → Value)

theorem hasKey_mapValues (key : String) :
    (data.mapValues change).hasKey key = data.hasKey key := by
  unfold hasKey mapValues
  rw [List.any_map]
  rfl

theorem get?_mapValues (key : String) :
    (data.mapValues change).get? key = (data.get? key).map (change key) := by
  unfold get? mapValues
  induction data with
  | nil => rfl
  | cons entry data ih =>
    obtain ⟨k, value⟩ := entry
    rw [List.map_cons, NameMap.lookup_cons_eq, NameMap.lookup_cons_eq, ih]
    split
    · rename_i hkey
      rw [hkey]
      rfl
    · rfl

/-- Changed values do not matter where the text under `type` stays. -/
theorem sameOutline_mapValues {change : String → Value → Value}
    (htype : ∀ value, (change "type" value).string? = value.string?) :
    data.SameOutline (data.mapValues change) where
  hasKey key := (hasKey_mapValues change key).symm
  type := by
    rw [string?, string?, get?_mapValues]
    cases data.get? "type" with
    | none => rfl
    | some value => exact (htype value).symm

end Mapping

/-! ## Outlines -/

/-- A text as it is, and nothing of any other value. -/
def Value.textOnly : Value → Value
  | .string text => .string text
  | _ => .null

theorem Value.string?_textOnly (value : Value) : value.textOnly.string? = value.string? := by
  cases value <;> rfl

/-- Data of which the keys are left, and the text under `type`. -/
def Mapping.outline (data : Mapping) : Mapping :=
  data.mapValues fun key value => if key = "type" then value.textOnly else .null

theorem Mapping.sameOutline_outline (data : Mapping) : data.SameOutline data.outline :=
  sameOutline_mapValues Value.string?_textOnly

/-- Nothing is left of lists. -/
theorem Mapping.list?_eq_none_of_mem_outline {data : Mapping} {entry : String × Value}
    (h : entry ∈ data.outline) : entry.2.list? = none := by
  obtain ⟨⟨key, value⟩, -, rfl⟩ := List.mem_map.1 h
  show (if key = "type" then value.textOnly else .null).list? = none
  split
  · cases value <;> rfl
  · rfl

/-- Rules read the outline of data only. -/
theorem RuleKind.appliesTo_congr {data data' : Mapping} (h : data.SameOutline data')
    (kind : RuleKind) : kind.appliesTo data = kind.appliesTo data' := by
  cases kind with
  | typeAlias name => rw [appliesTo, appliesTo, h.type]
  | field name replacement => rw [appliesTo, appliesTo, h.hasKey]
  | element => rfl
  | optionality fields => simp only [appliesTo, h.hasKey]

end PolicyLint
