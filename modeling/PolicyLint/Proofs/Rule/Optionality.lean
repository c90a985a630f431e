import PolicyLint.Proofs.DistinctNames

/-!
# Rules on optional fields

A rule on optional fields is registered with a list of names, in which names may stand several
times. Its fields are these names without the repetitions, so it applies to the same data, and
its text speaks of one field if there is only one name (`Rule.AsksFor`).

Main statement : every list of names but the empty one is registered, and the rule asks for the
names that were given (`Registry.register_optionality`).
-/

namespace PolicyLint

/-! ## Data with some of the names -/

theorem Mapping.hasKey_iff {data : Mapping} {name : String} :
    data.hasKey name ↔ name ∈ data.map Prod.fst := by
  rw [hasKey, List.any_eq_true, List.mem_map]
  exact exists_congr fun entry => and_congr_right fun _ => beq_iff_eq

namespace RuleKind

variable {names fields : List String}

theorem appliesTo_optionality_iff {data : Mapping} :
    (optionality fields).appliesTo data ↔ ∀ name ∈ fields, name ∉ data.map Prod.fst := by
  rw [appliesTo, List.all_eq_true]
  refine forall₂_congr fun name _ => ?_
  rw [Bool.not_eq_true', ← Mapping.hasKey_iff, Bool.not_eq_true]

/-! ## One name or several -/

/-- What is said of a field that will be required. -/
def oneFieldText (name : String) : String :=
  "optional field " ++ quote name ++ " deprecated (must be specified)"

/-- What is said of several fields, one of which will be required. -/
def severalFieldsText (names : List String) : String :=
  "optional fields deprecated (one of " ++ " or ".intercalate (names.map quote) ++
    " must be specified)"

theorem describe_optionality (h : ∀ name, fields ≠ [name]) :
    (optionality fields).describe = severalFieldsText fields := by
  match fields with
  | [] => rfl
  | [name] => exact absurd rfl (h name)
  | _ :: _ :: _ => rfl

/-- The two texts differ in the character behind the word "field". -/
theorem severalFieldsText_ne_oneFieldText (names : List String) (name : String) :
    severalFieldsText names ≠ oneFieldText name := by
  have hone : "optional field ".toList = "optional field".toList ++ [' '] := by
    decide
  have hseveral : "optional fields deprecated (one of ".toList =
      "optional field".toList ++ 's' :: " deprecated (one of ".toList := by
    decide
  intro h
  unfold severalFieldsText oneFieldText at h
  rw [← String.toList_inj, String.toList_append, String.toList_append, String.toList_append,
    String.toList_append, hone, hseveral] at h
  simp only [List.append_assoc] at h
  cases (List.cons.inj (List.append_cancel_left h)).1

theorem exists_describe_eq_oneFieldText_iff :
    (∃ name, (optionality fields).describe = oneFieldText name) ↔ ∃ name, fields = [name] := by
  constructor
  · rintro ⟨name, hname⟩
    by_contra hseveral
    rw [describe_optionality (not_exists.1 hseveral)] at hname
    exact severalFieldsText_ne_oneFieldText fields name hname
  · rintro ⟨name, rfl⟩
    exact ⟨name, rfl⟩

end RuleKind

/-- There is one name left exactly if all of the names are the same. -/
theorem FirstPlaces.exists_eq_singleton_iff {names fields : List String}
    (h : FirstPlaces names fields) (hne : names ≠ []) :
    (∃ name, fields = [name]) ↔ ∀ name ∈ names, ∀ other ∈ names, name = other := by
  simp only [← h.mem_iff]
  constructor
  · rintro ⟨first, rfl⟩ name hname other hother
    rw [List.mem_singleton.1 hname, List.mem_singleton.1 hother]
  · intro hsame
    match fields, h.ne_nil hne, h.nodup with
    | [name], _, _ => exact ⟨name, rfl⟩
    | name :: other :: fields, _, hnodup =>
      have heq := hsame name List.mem_cons_self other (by simp)
      exact absurd (heq ▸ List.mem_cons_self) (List.nodup_cons.1 hnodup).1

/-! ## Registered rules -/

open RuleKind (oneFieldText severalFieldsText)

/-- A rule on optional fields that asks for one of the given names. -/
structure Rule.AsksFor (names fields : List String) (rule : Rule) : Prop where
  kind_eq : rule.kind = .optionality fields
  firstPlaces : FirstPlaces names fields
  fields_eq : names.Nodup → fields = names
  appliesTo_iff : ∀ data, rule.appliesTo data ↔ ∀ name ∈ names, name ∉ data.map Prod.fst
  exists_describe_iff : (∃ name, rule.describe = oneFieldText name) ↔
    ∀ name ∈ names, ∀ other ∈ names, name = other
  describe_one : ∀ name, (∀ other ∈ names, other = name) → rule.describe = oneFieldText name
  describe_several : (∃ name ∈ names, ∃ other ∈ names, name ≠ other) →
    rule.describe = severalFieldsText fields

theorem Rule.asksFor_distinctNames {names : List String} (hne : names ≠ []) (rule : Rule)
    (hkind : rule.kind = .optionality (distinctNames names)) :
    rule.AsksFor names (distinctNames names) := by
  have hfirst := firstPlaces_distinctNames names
  have hone := hfirst.exists_eq_singleton_iff hne
  exact {
    kind_eq := hkind
    firstPlaces := hfirst
    fields_eq := distinctNames_of_nodup
    appliesTo_iff := fun data => by
      rw [appliesTo, hkind, RuleKind.appliesTo_optionality_iff]
      simp only [hfirst.mem_iff]
    exists_describe_iff := by
      rw [describe, hkind, RuleKind.exists_describe_eq_oneFieldText_iff, hone]
    describe_one := fun name hname => by
      obtain ⟨only, honly⟩ := hone.2 fun a ha b hb => (hname a ha).trans (hname b hb).symm
      have hmem : only ∈ names := (hfirst.mem_iff only).1 (honly ▸ List.mem_singleton_self only)
      rw [describe, hkind, honly, hname only hmem]
      rfl
    describe_several := fun ⟨name, hname, other, hother, hdiffer⟩ => by
      rw [describe, hkind]
      refine RuleKind.describe_optionality (not_exists.1 fun hsingle => ?_)
      exact hdiffer (hone.1 hsingle name hname other hother) }

/-- Only the empty list of names is refused. With any other one, and any removal date or none,
a rule is registered that asks for the names. A rule that is constructed from the text of a
removal date is that rule. -/
theorem Registry.register_optionality (names : List String) (removedAfter : Option RemovalDate)
    (registry : Registry) :
    (names = [] → (register (.optionality names) removedAfter).run.run registry =
      (.error .emptyFieldSet, registry)) ∧
    (names ≠ [] → ∃ rule fields, (register (.optionality names) removedAfter).run.run registry =
        (.ok rule, ⟨registry.next + 1⟩) ∧
      rule.id = registry.next ∧ rule.removedAfter = removedAfter ∧ rule.AsksFor names fields) ∧
    ∀ text, RemovalDate.parseOptional text = .ok removedAfter →
      Rule.optionalFields text names = register (.optionality names) removedAfter := by
  refine ⟨?_, fun hne => ?_, fun text htext => ?_⟩
  · rintro rfl
    rfl
  · obtain ⟨first, rest, rfl⟩ := List.exists_cons_of_ne_nil hne
    exact ⟨_, _, rfl, rfl, rfl, Rule.asksFor_distinctNames hne _ rfl⟩
  · rw [Rule.optionalFields, Rule.ofKind, htext]
    rfl

/-- A name that stands twice is quoted once, at its first place. -/
theorem Registry.register_optionality_repeated :
    let names := ["days", "hours", "days"]
    let date : RemovalDate := ⟨2021, 6, 30, by decide⟩
    RemovalDate.parseOptional (some "2021-06-30") = .ok (some date) ∧
    (∃ rule, (Rule.optionalFields (some "2021-06-30") names).run.run {} = (.ok rule, ⟨2⟩) ∧
      rule.AsksFor names ["days", "hours"] ∧ rule.describe =
        "optional fields deprecated (one of 'days' or 'hours' must be specified)") ∧
    (register (.optionality []) none).run.run {} = (.error .emptyFieldSet, {}) := by
  intro names date
  have hdate : RemovalDate.parseOptional (some "2021-06-30") = .ok (some date) := rfl
  obtain ⟨-, hregisters, htext⟩ := register_optionality names (some date) {}
  obtain ⟨rule, fields, hrun, -, -, hasks⟩ := hregisters (List.cons_ne_nil _ _)
  obtain rfl : fields = ["days", "hours"] :=
    hasks.firstPlaces.unique (firstPlaces_distinctNames names)
  have htwo : ∃ name ∈ names, ∃ other ∈ names, name ≠ other :=
    ⟨"days", by decide, "hours", by decide, by decide⟩
  refine ⟨hdate, ⟨rule, ?_, hasks, (hasks.describe_several htwo).trans ?_⟩,
    (register_optionality [] none {}).1 rfl⟩
  · rw [htext _ hdate]
    exact hrun
  · decide +kernel

end PolicyLint
