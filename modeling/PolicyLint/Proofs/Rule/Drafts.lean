import PolicyLint.Proofs.Rule.Program

/-!
# Drafts and constructors

A rule can be constructed from the draft of a catalog, or by the constructor for its form, with
the text of a removal date or none, and then be given a link (`RuleForm.construct`,
`Rule.linked`).

Main statement : both ways end alike. They fail with the same error and take no number, or give
the same rule and take one number (`RuleDraft.build_agrees`). A removal date that is neither a
null nor a text can only be given to a draft; it is refused before anything else is looked at.
-/

namespace PolicyLint

variable {form : RuleForm} {link : Option String}

/-- Construct a rule of a form by the constructor for it. -/
def RuleForm.construct (removedAfter : Option String) : RuleForm → Construction RuleError Rule
  | typeAlias name => Rule.typeAlias name removedAfter
  | field name replacement => Rule.field name replacement removedAfter
  | element kind name replacement => Rule.element name replacement removedAfter kind
  | optionalField name => Rule.optionalField name removedAfter
  | optionalFields names => Rule.optionalFields removedAfter names

/-- The rule with a link, if one is given. -/
def Rule.linked (link : Option String) (rule : Rule) : Rule :=
  link.elim rule fun link => rule.withLink link

theorem RuleForm.construct_eq_build (form : RuleForm) (removedAfter : Option String) :
    form.construct removedAfter = RuleDraft.build ⟨form, Request.dateValue removedAfter, none⟩ := by
  rw [← Request.ofKind_eq_build]
  cases form <;> rfl

/-- A changed result takes the numbers that it took before. -/
theorem Construction.run_map {ε α β : Type} (f : α → β) (step : Construction ε α)
    (registry : Registry) : (f <$> step).run.run registry =
      ((step.run.run registry).1.map f, (step.run.run registry).2) := by
  rw [ExceptT.run_map, StateT.run_map]
  rfl

namespace RuleDraft

/-- A link is attached to what is constructed without it. -/
theorem build_eq_map (form : RuleForm) (value : Value) (link : Option String) :
    build ⟨form, value, link⟩ = Rule.linked link <$> build ⟨form, value, none⟩ := by
  cases link with
  | none =>
    have hlinked : Rule.linked none = id := rfl
    rw [hlinked, id_map]
  | some link =>
    have hlinked : Rule.linked (some link) = Rule.withLink link := rfl
    simp [build, hlinked]

theorem Fails.of_link {value : Value} {error : RuleError}
    (h : Fails ⟨form, value, none⟩ error) (link : Option String) :
    Fails ⟨form, value, link⟩ error := by
  cases h with
  | date hmisread => exact .date hmisread
  | fields hdate hform => exact .fields hdate hform

theorem Describes.linked {value : Value} {rule : Rule}
    (h : Describes ⟨form, value, none⟩ rule) (link : Option String) :
    Describes ⟨form, value, link⟩ (rule.linked link) := by
  cases link with
  | none => exact h
  | some link => exact ⟨h.kind, h.removedAfter, rfl⟩

theorem build_of_not_text (form : RuleForm) (link : Option String) {value : Value}
    (hnull : value ≠ .null) (htext : ∀ text, value ≠ .string text) (registry : Registry) :
    (build ⟨form, value, link⟩).run.run registry =
      (.error (.removalDateNotString value), registry) := by
  cases value with
  | null => exact absurd rfl hnull
  | string text => exact absurd rfl (htext text)
  | boolean | number | list | mapping => rfl

/-- A draft and the constructor for its form end alike, whatever the form, the text of the
removal date and the link are. If one fails so does the other, with the same error, and no number
is taken; else they give the same rule, up to the link that it is given then, and take one number.
A draft with anything else for a removal date fails for that, whatever else is wrong with it. -/
theorem build_agrees (form : RuleForm) (link : Option String) (registry : Registry) :
    (∀ removedAfter : Option String,
      let draft : RuleDraft := ⟨form, Request.dateValue removedAfter, link⟩
      (∃ error, (form.construct removedAfter).run.run registry = (.error error, registry) ∧
        draft.build.run.run registry = (.error error, registry) ∧ draft.Fails error) ∨
      ∃ rule, (form.construct removedAfter).run.run registry =
          (.ok rule, ⟨registry.next + 1⟩) ∧
        draft.build.run.run registry = (.ok (rule.linked link), ⟨registry.next + 1⟩) ∧
        draft.Describes (rule.linked link) ∧ rule.id = registry.next) ∧
    ∀ value, value ≠ .null → (∀ text, value ≠ .string text) →
      (build ⟨form, value, link⟩).run.run registry =
        (.error (.removalDateNotString value), registry) := by
  refine ⟨fun removedAfter => ?_, fun value hnull htext =>
    build_of_not_text form link hnull htext registry⟩
  intro draft
  have hdraft : draft.build = Rule.linked link <$> form.construct removedAfter := by
    rw [RuleForm.construct_eq_build]
    exact build_eq_map _ _ _
  rw [hdraft, Construction.run_map, RuleForm.construct_eq_build]
  rcases constructs_or_fails ⟨form, Request.dateValue removedAfter, none⟩ registry with
    ⟨rule, hrun, hdescribes, hid⟩ | ⟨error, hrun, hfails⟩
  · rw [hrun]
    exact .inr ⟨rule, rfl, rfl, hdescribes.linked link, hid⟩
  · rw [hrun]
    exact .inl ⟨error, rfl, rfl, hfails.of_link link⟩

/-- Of a removal date that is none and a list of fields that is empty, the first one counts, in a
draft and in a constructor. -/
theorem build_agrees_without_fields :
    (build ⟨.optionalFields [], .string "2021-13-01", some "link"⟩).run.run {} =
      (.error (.invalidRemovalDate "2021-13-01"), {}) ∧
    (Rule.optionalFields (some "2021-13-01") []).run.run {} =
      (.error (.invalidRemovalDate "2021-13-01"), {}) ∧
    (build ⟨.optionalFields [], .boolean true, some "link"⟩).run.run {} =
      (.error (.removalDateNotString (.boolean true)), {}) := by
  obtain ⟨hagrees, hrefused⟩ := build_agrees (.optionalFields []) (some "link") {}
  have hfails : Fails ⟨.optionalFields [], .string "2021-13-01", some "link"⟩
      (.invalidRemovalDate "2021-13-01") := .date (.text (by decide))
  rcases hagrees (some "2021-13-01") with
    ⟨error, hconstruct, hbuild, herror⟩ | ⟨rule, -, -, hdescribes, -⟩
  · obtain rfl := herror.unique hfails
    exact ⟨hbuild, hconstruct, hrefused (.boolean true) nofun nofun⟩
  · exact absurd hfails hdescribes.not_fails

end RuleDraft

end PolicyLint
