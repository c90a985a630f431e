import PolicyLint.Proofs.Catalog.Renumber
import PolicyLint.Proofs.Catalog.Sections

/-!
# Drafts that are put together

A draft of a catalog may be split in two, each of which is built by itself. What a draft
describes is described up to the numbers of the rules (`Describes.eq_renumber`), so logs of the
same entries differ by these alone.

Main statement : the catalog of one draft, extended by that of another one, is the catalog of
both drafts put together, with its rules renumbered one by one (`CatalogDraft.run_build_append`).
-/

namespace PolicyLint

/-! ## What a draft describes -/

theorem RemovalDate.Reads.unique {value : Value} {date date' : Option RemovalDate}
    (h : Reads value date) (h' : Reads value date') : date = date' := by
  cases h with
  | null =>
    cases h'
    rfl
  | text hdate =>
    cases h' with
    | text hdate' => exact hdate.symm.trans hdate'

variable {σ : Nat → Nat}

theorem RuleDraft.Describes.eq_renumber {draft : RuleDraft} {rule rule' : Rule}
    (h : draft.Describes rule) (h' : draft.Describes rule') (hid : σ rule.id = rule'.id) :
    rule' = rule.renumber σ := by
  have hkind : rule.kind = rule'.kind := Except.ok.inj (h.kind.symm.trans h'.kind)
  have hdate : rule.removedAfter = rule'.removedAfter := h.removedAfter.unique h'.removedAfter
  have hlink : rule.link = rule'.link := h.link.trans h'.link.symm
  rw [Rule.renumber, hkind, hdate, hlink, hid]

theorem RuleDraft.eq_map_renumber {drafts : List RuleDraft} {rules rules' : List Rule}
    (h : List.Forall₂ RuleDraft.Describes drafts rules)
    (h' : List.Forall₂ RuleDraft.Describes drafts rules')
    (hids : (rules.map Rule.id).map σ = rules'.map Rule.id) :
    rules' = rules.map (Rule.renumber σ) := by
  induction h generalizing rules' with
  | nil =>
    cases h'
    rfl
  | cons hrule _ ih =>
    cases h' with
    | cons hrule' hrules' =>
      simp only [List.map_cons, List.cons.injEq] at hids
      rw [List.map_cons, hrule.eq_renumber hrule' hids.1, ih hrules' hids.2]

theorem ElementDraft.Describes.eq_renumber {draft : ElementDraft} {element element' : ElementType}
    (h : draft.Describes element) (h' : draft.Describes element')
    (hids : (element.rules.map Rule.id).map σ = element'.rules.map Rule.id) :
    element' = element.renumber σ := by
  obtain ⟨names, rules⟩ := element
  obtain ⟨names', rules'⟩ := element'
  obtain rfl := h.names
  obtain rfl := h'.names
  obtain rfl := RuleDraft.eq_map_renumber h.rules h'.rules hids
  rfl

/-- The numbers of the rules in a log, in order. -/
def Registration.ids (log : List Registration) : List Nat :=
  (log.flatMap Registration.listed).map ListedRule.id

theorem Registration.ids_cons (registration : Registration) (log : List Registration) :
    ids (registration :: log) = registration.listed.map ListedRule.id ++ ids log := by
  simp [ids]

namespace CatalogEntry

variable {entry : CatalogEntry} {registration registration' : Registration}

theorem Describes.length_eq (h : entry.Describes registration)
    (h' : entry.Describes registration') :
    registration.listed.length = registration'.listed.length := by
  cases h <;> cases h'
  case mode.mode h _ h' | filter.filter h _ h' | action.action h _ h' =>
    have hlength := h.rules.length_eq.symm.trans h'.rules.length_eq
    simpa [Registration.listed, ListedRule.ofRules] using hlength
  all_goals rfl

/-- What an entry describes is determined by the numbers of the rules. -/
theorem Describes.eq_renumber (h : entry.Describes registration)
    (h' : entry.Describes registration')
    (hids : (registration.listed.map ListedRule.id).map σ =
      registration'.listed.map ListedRule.id) : registration' = registration.renumber σ := by
  cases h <;> cases h'
  case mode.mode h _ h' | filter.filter h _ h' | action.action h _ h' =>
    simp only [Registration.listed, ListedRule.map_id_ofRules] at hids
    rw [h.eq_renumber h' hids, Registration.renumber]
  all_goals
    rename_i h _ h'
    rw [h.eq_renumber h' (List.head_eq_of_cons_eq hids), Registration.renumber]

/-- What entries describe is determined by the numbers of the rules, in order. -/
theorem eq_map_renumber {entries : List CatalogEntry} {log log' : List Registration}
    (h : List.Forall₂ Describes entries log) (h' : List.Forall₂ Describes entries log')
    (hids : (Registration.ids log).map σ = Registration.ids log') :
    log' = log.map (Registration.renumber σ) := by
  induction h generalizing log' with
  | nil =>
    cases h'
    rfl
  | cons hfirst _ ih =>
    cases h' with
    | cons hfirst' hrest' =>
      rw [Registration.ids_cons, Registration.ids_cons, List.map_append] at hids
      obtain ⟨hhead, htail⟩ := List.append_inj hids (by simp [hfirst.length_eq hfirst'])
      rw [List.map_cons, hfirst.eq_renumber hfirst' hhead, ih hrest' htail]

theorem length_ids_eq {entries : List CatalogEntry} {log log' : List Registration}
    (h : List.Forall₂ Describes entries log) (h' : List.Forall₂ Describes entries log') :
    (Registration.ids log).length = (Registration.ids log').length := by
  induction h generalizing log' with
  | nil =>
    cases h'
    rfl
  | cons hfirst _ ih =>
    cases h' with
    | cons hfirst' hrest' =>
      rw [Registration.ids_cons, Registration.ids_cons, List.length_append, List.length_append,
        List.length_map, List.length_map, hfirst.length_eq hfirst', ih hrest']

end CatalogEntry

/-! ## Building -/

namespace CatalogDraft

/-- What comes of a draft that is built : no step has failed, and the catalog has the registrations
that the entries describe, with the numbers used. -/
theorem exists_log_of_run_build {draft : CatalogDraft} {registry registry' : Registry}
    {catalog : Catalog} (h : draft.build.run.run registry = (.ok catalog, registry')) :
    Passes BuildStep.Fails draft.steps ∧
      ∃ log, List.Forall₂ CatalogEntry.Describes draft.entries log ∧
        catalog = log.foldl Registration.applyTo ∅ ∧
        ∃ n, registry'.next = registry.next + n ∧
          Registration.ids log = List.range' registry.next n := by
  have hreaches := draft.performs_build registry
  rw [h] at hreaches
  cases hreaches with
  | complete hpass hvalue =>
    obtain ⟨log, hlog, rfl⟩ := hvalue
    exact ⟨hpass, log, hlog.describes, rfl, _, rfl, hlog.ids_eq.symm⟩

theorem exists_run_build_of_passes {draft : CatalogDraft}
    (h : Passes BuildStep.Fails draft.steps) (registry : Registry) :
    ∃ catalog registry', draft.build.run.run registry = (.ok catalog, registry') := by
  have hreaches := draft.performs_build registry
  generalize draft.build.run.run registry = ended at hreaches
  cases hreaches with
  | @complete catalog hpass hvalue => exact ⟨catalog, _, rfl⟩
  | stopped hfails => exact absurd h hfails.not_passes

theorem passes_steps_append {draft other : CatalogDraft}
    (h : Passes BuildStep.Fails draft.steps) (h' : Passes BuildStep.Fails other.steps) :
    Passes BuildStep.Fails (draft ++ other).steps := by
  have hperm : (draft ++ other).entries.Perm (draft.entries ++ other.entries) := by
    rw [entries_append]
    exact Section.perm_group _
  have hperm := hperm.flatMap_right CatalogEntry.steps
  rw [List.flatMap_append] at hperm
  exact fun step hstep => h.append h' step (hperm.mem_iff.1 hstep)

/-- Let two drafts be built, one after the other in either order. The draft of both together is
built too, and its catalog is that of the first, extended by that of the second, with the rules
renumbered one by one. -/
theorem run_build_append {draft other : CatalogDraft}
    {registry₁ registry₁' registry₂ registry₂' : Registry} {catalog extension : Catalog}
    (h : draft.build.run.run registry₁ = (.ok catalog, registry₁'))
    (h' : other.build.run.run registry₂ = (.ok extension, registry₂'))
    (hapart : registry₁'.next ≤ registry₂.next ∨ registry₂'.next ≤ registry₁.next)
    (registry : Registry) :
    ∃ σ : Equiv.Perm Nat, ∃ joined registry',
      (draft ++ other).build.run.run registry = (.ok joined, registry') ∧
        Catalog.SameUpTo σ (catalog.extend extension) joined := by
  obtain ⟨hpass, log, hlog, rfl, n, hn, hids⟩ := exists_log_of_run_build h
  obtain ⟨hpass', log', hlog', rfl, n', hn', hids'⟩ := exists_log_of_run_build h'
  obtain ⟨joined, registry', hjoined⟩ :=
    exists_run_build_of_passes (passes_steps_append hpass hpass') registry
  obtain ⟨-, logJoined, hlogJoined, rfl, m, -, hidsJoined⟩ := exists_log_of_run_build hjoined
  -- The registrations of both, in the order in which they are made for the joined draft.
  let grouped := Section.group Registration.place (log ++ log')
  have hgrouped : List.Forall₂ CatalogEntry.Describes (draft ++ other).entries grouped := by
    rw [entries_append]
    exact Section.forall₂_group CatalogEntry.Describes.place_eq (List.rel_append hlog hlog')
  have hnodup : (Registration.ids grouped).Nodup := by
    have hperm : (Registration.ids grouped).Perm (Registration.ids (log ++ log')) :=
      ((Section.perm_group (log ++ log')).flatMap_right _).map _
    rw [hperm.nodup_iff, Registration.ids, List.flatMap_append, List.map_append]
    change (Registration.ids log ++ Registration.ids log').Nodup
    rw [hids, hids', List.nodup_append]
    refine ⟨List.nodup_range', List.nodup_range', fun id hid id' hid' heq => ?_⟩
    rw [List.mem_range'_1] at hid hid'
    omega
  obtain ⟨σ, hσ⟩ := exists_perm_map_eq hnodup (hidsJoined ▸ List.nodup_range')
    (CatalogEntry.length_ids_eq hgrouped hlogJoined)
  have hextend : (log.foldl Registration.applyTo ∅).extend (log'.foldl Registration.applyTo ∅) =
      grouped.foldl Registration.applyTo ∅ := by
    refine ((Catalog.consists_empty.foldl log).extend (Catalog.consists_empty.foldl log')).unique
      (Catalog.consists_empty.foldl grouped) fun s => ?_
    exact (Section.pick_group s _).symm
  have hrenumber : logJoined.foldl Registration.applyTo ∅ =
      (grouped.foldl Registration.applyTo ∅).renumber σ := by
    rw [CatalogEntry.eq_map_renumber hgrouped hlogJoined hσ]
    exact Registration.foldl_map_renumber grouped ∅
  refine ⟨σ, _, _, hjoined, ?_⟩
  rw [hextend, hrenumber]
  exact Catalog.sameUpTo_renumber σ.injective _

/-- A rule on policies and a filter under two names. -/
def sampleDraft : CatalogDraft where
  policy := [{ form := .field "a" "b" }]
  filters := [{ names := ["f", "g"], deprecations := [{ form := .typeAlias "g" }] }]

/-- Another rule on policies, and a filter that takes over a name. -/
def sampleExtension : CatalogDraft where
  policy := [{ form := .field "c" "d" }]
  filters := [{ names := ["g"], deprecations := [{ form := .optionalField "e" }] }]

theorem run_build_append_sample : ∃ catalog extension,
    sampleDraft.build.run.run {} = (.ok catalog, ⟨3⟩) ∧
    sampleExtension.build.run.run ⟨3⟩ = (.ok extension, ⟨5⟩) ∧
    (catalog.extend extension).rules.map ListedRule.id = [1, 3, 2, 4] ∧
    ∃ σ : Equiv.Perm Nat, ∃ joined registry',
      (sampleDraft ++ sampleExtension).build.run.run {} = (.ok joined, registry') ∧
        Catalog.SameUpTo σ (catalog.extend extension) joined :=
  ⟨_, _, rfl, rfl, by decide +kernel, run_build_append rfl rfl (.inl (Nat.le_refl 3)) {}⟩

end CatalogDraft

end PolicyLint
