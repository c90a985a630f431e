import Mathlib.Data.List.Forall2
import PolicyLint.Proofs.Policy.Elements
import PolicyLint.Proofs.Yaml.Blank
import PolicyLint.Proofs.Yaml.Record

/-!
# Lists of policies

`Policy.Reads` says which policy a value under `policies` is, and `Policy.Offends` what is wrong
with a value that is none : exactly one of the two holds of every value
(`Policy.ofValue_of_reads`, `Policy.ofValue_of_offends`, `Policy.reads_or_offends`).

Main statement : a list of values is read as one policy for each, and if some value is none,
the first one of them decides the error (`Policy.listOfValues_reads_or_offends`).
-/

namespace PolicyLint.Policy

variable {value : Value} {values : List Value} {policy : Policy} {error : LoadError}
  {index : Nat}

/-! ## One value -/

/-- The policy that a value is : a mapping with two strings, its name and its resource type. The
data of the policy is all of the mapping. -/
inductive Reads : Value → Policy → Prop
  | intro {data : Mapping} {name resource : String}
    (hname : data.get? "name" = some (.string name))
    (hresource : data.get? "resource" = some (.string resource)) :
    Reads (.mapping data) ⟨name, ResourceName.normalize resource, data⟩

/-- What is wrong with the value that has a number. The name is missed before the resource
type. -/
inductive Offends (index : Nat) : Value → LoadError → Prop
  | notMapping {value : Value} (h : ∀ data, value ≠ .mapping data) :
    Offends index value (.notMapping index value)
  | name {data : Mapping} (h : ∀ name, data.get? "name" ≠ some (.string name)) :
    Offends index (.mapping data) (.missingField index "name")
  | resource {data : Mapping} {name : String}
    (hname : data.get? "name" = some (.string name))
    (h : ∀ resource, data.get? "resource" ≠ some (.string resource)) :
    Offends index (.mapping data) (.missingField index "resource")

theorem requiredString_eq_ok {data : Mapping} {key text : String}
    (h : data.get? key = some (.string text)) : requiredString index data key = .ok text := by
  rw [requiredString, PolicyElement.string?_eq_some.2 h]

theorem requiredString_eq_error {data : Mapping} {key : String}
    (h : ∀ text, data.get? key ≠ some (.string text)) :
    requiredString index data key = .error (.missingField index key) := by
  have hnone : data.string? key = none :=
    Option.eq_none_iff_forall_ne_some.2 fun text htext =>
      h text (PolicyElement.string?_eq_some.1 htext)
  rw [requiredString, hnone]

theorem ofValue_of_reads (h : Reads value policy) : ofValue index value = .ok policy := by
  cases h with
  | intro hname hresource =>
    rw [ofValue, ofData, requiredString_eq_ok hname, requiredString_eq_ok hresource]
    rfl

theorem ofValue_of_offends (h : Offends index value error) :
    ofValue index value = .error error := by
  cases h with
  | notMapping h =>
    cases value with
    | mapping data => exact absurd rfl (h data)
    | null | boolean | number | string | list => rfl
  | name h =>
    rw [ofValue, ofData, requiredString_eq_error h]
    rfl
  | resource hname h =>
    rw [ofValue, ofData, requiredString_eq_ok hname, requiredString_eq_error h]
    rfl

/-- A value is a policy, or something is wrong with it. -/
theorem reads_or_offends (index : Nat) (value : Value) :
    (∃ policy, Reads value policy) ∨ ∃ error, Offends index value error := by
  cases value with
  | mapping data =>
    by_cases hname : ∃ name, Mapping.get? data "name" = some (.string name)
    · obtain ⟨name, hname⟩ := hname
      by_cases hresource : ∃ resource, Mapping.get? data "resource" = some (.string resource)
      · obtain ⟨resource, hresource⟩ := hresource
        exact .inl ⟨_, .intro hname hresource⟩
      · exact .inr ⟨_, .resource hname (not_exists.1 hresource)⟩
    · exact .inr ⟨_, .name (not_exists.1 hname)⟩
  | null | boolean | number | string | list => exact .inr ⟨_, .notMapping nofun⟩

/-! ## Lists of values -/

theorem listOfValues_cons_of_reads (h : Reads value policy) : listOfValues index (value :: values) =
    (listOfValues (index + 1) values).map (policy :: ·) := by
  rw [listOfValues, ofValue_of_reads h]
  cases listOfValues (index + 1) values <;> rfl

theorem listOfValues_cons_of_offends (h : Offends index value error) :
    listOfValues index (value :: values) = .error error := by
  rw [listOfValues, ofValue_of_offends h]
  rfl

/-- If all values are policies, they are read in order. -/
theorem exists_listOfValues_eq_ok (index : Nat)
    (h : ∀ value ∈ values, ∃ policy, Reads value policy) :
    ∃ policies, listOfValues index values = .ok policies ∧ List.Forall₂ Reads values policies := by
  induction values generalizing index with
  | nil => exact ⟨[], rfl, .nil⟩
  | cons value values ih =>
    obtain ⟨⟨policy, hpolicy⟩, hvalues⟩ := List.forall_mem_cons.1 h
    obtain ⟨policies, hread, hpolicies⟩ := ih (index + 1) hvalues
    refine ⟨policy :: policies, ?_, .cons hpolicy hpolicies⟩
    rw [listOfValues_cons_of_reads hpolicy, hread]
    rfl

/-- The first value that is no policy decides the error. -/
theorem listOfValues_eq_error (i : Nat) (hvalue : values[i]? = some value)
    (hbefore : ∀ j < i, ∀ other, values[j]? = some other → ∃ policy, Reads other policy)
    (h : Offends (index + i) value error) : listOfValues index values = .error error := by
  induction i generalizing index values with
  | zero =>
    cases values with
    | nil => cases hvalue
    | cons first values =>
      obtain rfl := Option.some.inj hvalue
      exact listOfValues_cons_of_offends h
  | succ i ih =>
    cases values with
    | nil => cases hvalue
    | cons first values =>
      obtain ⟨policy, hfirst⟩ := hbefore 0 (Nat.succ_pos i) first rfl
      rw [← Nat.add_assoc, Nat.add_right_comm] at h
      rw [listOfValues_cons_of_reads hfirst,
        ih hvalue (fun j hj other hother => hbefore (j + 1) (Nat.succ_lt_succ hj) other hother) h]
      rfl

/-! ## Lists in texts -/

theorem entries?_eq_nil_of_isBlank {text : String} (hblank : Text.isBlank text)
    (h : entries? text = some values) : values = [] := by
  simp only [entries?, Option.bind_eq_bind, Option.bind_eq_some_iff] at h
  obtain ⟨tree, htree, fields, hfields, hvalues⟩ := h
  obtain ⟨content, rfl⟩ := Yaml.Tree.exists_scalar_of_isBlank hblank htree
  obtain rfl := Yaml.Tree.fields_eq_nil_of_scalar hfields
  exact (Option.some.inj hvalues).symm

/-- The values under `policies` in a text are what is read. -/
theorem listOfText_eq {text : String} (h : entries? text = some values) :
    listOfText text = listOfValues 1 values := by
  unfold listOfText
  split
  · rename_i hblank
    rw [entries?_eq_nil_of_isBlank hblank h]
    rfl
  · rw [h]

/-- A list of values is read as one policy for each, if each is one, and else the first that is
none decides the error. The values under `policies` in a text are read as a list. -/
theorem listOfValues_reads_or_offends (values : List Value) :
    ((∀ value ∈ values, ∃ policy, Reads value policy) →
      ∃ policies, listOfValues 1 values = .ok policies ∧ List.Forall₂ Reads values policies) ∧
    (∀ i value, values[i]? = some value → (¬∃ policy, Reads value policy) →
      (∀ j < i, ∀ other, values[j]? = some other → ∃ policy, Reads other policy) →
      ∃ error, Offends (i + 1) value error ∧ listOfValues 1 values = .error error) ∧
    ∀ text, entries? text = some values → listOfText text = listOfValues 1 values := by
  refine ⟨exists_listOfValues_eq_ok 1, fun i value hvalue hnone hbefore => ?_,
    fun text => listOfText_eq⟩
  rw [Nat.add_comm]
  obtain ⟨error, herror⟩ := (reads_or_offends (1 + i) value).resolve_left hnone
  exact ⟨error, herror, listOfValues_eq_error i hvalue hbefore herror⟩

/-- Of a policy, a mapping without a name and with a resource type that is no text, and a null,
the second is the error, for its name; the policy alone is read, and a text in the place of a
policy is refused. -/
theorem listOfValues_reads_or_offends_sample :
    let first := Value.mapping [("name", .string "a"), ("resource", .string "ec2")]
    let values := [first, .mapping [("resource", .list [])], .null]
    (∃ policies, listOfValues 1 [first] = .ok policies ∧ List.Forall₂ Reads [first] policies) ∧
    (∃ error, Offends 2 (.mapping [("resource", .list [])]) error ∧
      listOfValues 1 values = .error error) ∧
    listOfText "policies:\n- a\n" = .error (.notMapping 1 (.string "a")) := by
  intro first values
  have hfirst : ∃ policy, Reads first policy := ⟨_, .intro rfl rfl⟩
  refine ⟨(listOfValues_reads_or_offends [first]).1 ?_,
    (listOfValues_reads_or_offends values).2.1 1 _ rfl ?_ ?_, ?_⟩
  · exact List.forall_mem_singleton.2 hfirst
  · rintro ⟨policy, ⟨hname, -⟩⟩
    cases hname
  · intro j hj other hother
    obtain rfl := Nat.lt_one_iff.1 hj
    obtain rfl := Option.some.inj hother
    exact hfirst
  · have htokens : Yaml.Token.ofText? "policies:\n- a\n" = some [.blockMappingStart, .key,
        .scalar true "policies", .value, .blockEntry, .scalar true "a", .blockEnd] := by
      decide +kernel
    have hentries : entries? "policies:\n- a\n" = some [.string "a"] := by
      rw [entries?, Yaml.Tree.ofText?, htokens]
      rfl
    exact (listOfValues_reads_or_offends [.string "a"]).2.2 _ hentries

end PolicyLint.Policy
