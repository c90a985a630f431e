import PolicyLint.Proofs.Command.Check
import PolicyLint.Proofs.Yaml.Blank
import PolicyLint.Proofs.Yaml.Record
import PolicyLint.Proofs.Yaml.RootKeys

/-!
# Policy files without a list of policies

A mapping without the key `policies` is no policy file, but it is read like one whose list is
empty : a key that is left out stands for an empty list, and other keys are not looked at
(`Policy.listOfText_of_missesList`). Only a key that is no scalar is noticed.

A file without policies adds nothing to what a check finds but one file
(`CheckResult.ofFiles_eq_filter`), so that files that miss their lists are counted as checked.

Main statement : a text that misses its list is read and loaded as one without policies, and a
check finds what it would find without the file (`Invocation.run_check_of_missesList`).
-/

namespace PolicyLint

/-! ## Texts that miss their list -/

namespace Policy

/-- The document in a text is a mapping with the given keys, of which none is `policies`. -/
def MissesList (text : String) (keys : List (Option String)) : Prop :=
  ∃ root, Yaml.Node.ofText? text = some root ∧ root.rootKeys? = some keys ∧
    some "policies" ∉ keys

variable {text : String} {keys : List (Option String)}

theorem MissesList.not_isBlank (h : MissesList text keys) : ¬Text.isBlank text := by
  intro hblank
  obtain ⟨root, hroot, hkeys, -⟩ := h
  obtain ⟨content, rfl⟩ := Yaml.Node.exists_scalar_of_isBlank hblank hroot
  cases hkeys

/-- A list that is missing has no entries, if every key is a scalar. -/
theorem MissesList.entries?_eq (h : MissesList text keys) :
    entries? text = if none ∈ keys then none else some [] := by
  obtain ⟨root, hroot, hkeys, hmissing⟩ := h
  have hunread : ∀ key, some key ∈ keys → (key == "policies") = false := by
    intro key hkey
    exact beq_false_of_ne fun heq => hmissing (heq ▸ hkey)
  rw [entries?, Yaml.Tree.ofText?_eq_bind, hroot, Option.bind_some]
  obtain ⟨⟨tag, htree⟩, hscalars⟩ | ⟨htree, hnone⟩ := Yaml.Tree.ofNode?_of_unread hkeys hunread
  · rw [htree, if_neg hscalars]
    rfl
  · rw [htree, if_pos hnone]
    rfl

/-- A text that misses its list is read as one without policies, if every key is a scalar. -/
theorem listOfText_of_missesList (h : MissesList text keys) :
    listOfText text = if none ∈ keys then .error .malformed else .ok [] := by
  rw [listOfText, if_neg h.not_isBlank, h.entries?_eq]
  by_cases hnone : none ∈ keys
  · simp only [if_pos hnone]
  · simp only [if_neg hnone]
    rfl

end Policy

/-! ## Files that miss their list -/

namespace PolicyFile

variable {files : Files} {path text : String} {keys : List (Option String)}

theorem ofText_of_missesList (h : Policy.MissesList text keys) (hscalars : none ∉ keys)
    (path : String) : ofText path text = .ok ⟨path, [], LineIndex.ofText path text⟩ := by
  rw [ofText, Policy.listOfText_of_missesList h, if_neg hscalars]
  rfl

theorem load_of_missesList (hread : files.readText path = .ok text)
    (h : Policy.MissesList text keys) (hscalars : none ∉ keys) :
    load files path = .ok ⟨path, [], LineIndex.ofText path text⟩ := by
  rw [load, hread]
  exact ofText_of_missesList h hscalars path

end PolicyFile

/-- Files that load except for some with a text that misses its list all load, those without
policies. -/
theorem Policy.MissesList.exists_load {text : String} {keys : List (Option String)}
    (h : MissesList text keys) (hscalars : none ∉ keys) {found : List FoundFile}
    {load : FoundFile → PolicyFile}
    (hload : ∀ file ∈ found, file.text ≠ some text → PolicyFile.ofFound file = .ok (load file)) :
    ∃ load' : FoundFile → PolicyFile,
      (∀ file ∈ found, PolicyFile.ofFound file = .ok (load' file)) ∧
      (∀ file, file.text ≠ some text → load' file = load file) ∧
      ∀ file, file.text = some text → (load' file).policies = [] := by
  refine ⟨fun file => if file.text = some text then
    ⟨file.path, [], LineIndex.ofText file.path text⟩ else load file, ?_, ?_, ?_⟩
  · intro file hfile
    beta_reduce
    by_cases htext : file.text = some text
    · rw [if_pos htext, PolicyFile.ofFound, htext]
      exact PolicyFile.ofText_of_missesList h hscalars file.path
    · rw [if_neg htext]
      exact hload file hfile htext
  · exact fun file htext => if_neg htext
  · intro file htext
    beta_reduce
    rw [if_pos htext]

/-- The policy files under paths, if those that are found load as `load` says. -/
theorem PolicyFile.mapM_under_eq_ok {files : Files} {paths : List String}
    {found : List (List FoundFile)} {load : FoundFile → PolicyFile}
    (hfound : List.Forall₂ (fun path found => FileSearch.policyFiles {} files path = .ok found)
      paths found)
    (hload : ∀ file ∈ found.flatten, ofFound file = .ok (load file)) :
    paths.mapM (under files) = .ok (found.map (List.map load)) := by
  refine mapM_eq_ok_iff.2 ?_
  induction hfound with
  | nil => exact .nil
  | cons hpath _ ih =>
    rw [List.flatten_cons, List.forall_mem_append] at hload
    refine .cons ?_ (ih hload.2)
    rw [under, hpath]
    refine mapM_eq_ok_iff.2 (List.forall₂_map_right_iff.2 (List.forall₂_same.2 ?_))
    intro file hfile
    rw [hload.1 file hfile]
    rfl

/-! ## Files that are only counted -/

/-- Items that give nothing can be left out. -/
theorem flatMap_filter_eq {α β : Type} {p : α → Bool} {f : α → List β}
    (h : ∀ x, ¬p x → f x = []) (xs : List α) : (xs.filter p).flatMap f = xs.flatMap f := by
  induction xs with
  | nil => rfl
  | cons x xs ih =>
    rw [List.flatMap_cons, List.filter_cons]
    split
    · rw [List.flatMap_cons, ih]
    · rename_i hx
      rw [h x hx, List.nil_append, ih]

namespace CheckResult

variable (hidesLocation : Bool) (catalog : Catalog)

/-- Files without policies are counted, and that is all. -/
theorem ofFiles_eq_filter (files : List PolicyFile) :
    ofFiles hidesLocation catalog files =
      { ofFiles hidesLocation catalog (files.filter fun file => !file.policies.isEmpty) with
        files := files.length } := by
  have hpolicies : ∀ file : PolicyFile, ¬(!file.policies.isEmpty) → file.policies = [] := by
    intro file hfile
    simpa using hfile
  have hreports : ∀ file : PolicyFile, ¬(!file.policies.isEmpty) →
      file.deprecatedReports hidesLocation catalog = [] := by
    intro file hfile
    rw [PolicyFile.deprecatedReports, PolicyFile.reports, hpolicies file hfile]
    rfl
  rw [ofFiles, ofFiles, flatMap_filter_eq hreports, flatMap_filter_eq hpolicies]

/-- Files that load without policies can be left out of a check that counts them. -/
theorem ofFiles_map_eq_filter {α : Type} {load load' : α → PolicyFile} {p : α → Bool}
    (hkept : ∀ x, p x → load' x = load x) (hempty : ∀ x, ¬p x → (load' x).policies = [])
    (xs : List α) :
    ofFiles hidesLocation catalog (xs.map load') =
      { ofFiles hidesLocation catalog ((xs.filter p).map load) with files := xs.length } := by
  have hfilter : (xs.map load').filter (fun file => !file.policies.isEmpty) =
      ((xs.filter p).map load).filter fun file => !file.policies.isEmpty := by
    induction xs with
    | nil => rfl
    | cons x xs ih =>
      by_cases hx : p x
      · simp [List.filter_cons, hx, hkept x hx, ih]
      · simp [hx, hempty x hx, ih]
  rw [ofFiles_eq_filter, hfilter, ofFiles_eq_filter _ _ ((xs.filter p).map load), List.length_map]

end CheckResult

/-- A text that misses its list is malformed only if some key is no scalar. Else it is read and
loaded as one without policies, and a check counts the files with this text and finds what it
would find without them. -/
theorem Invocation.run_check_of_missesList {text : String} {keys : List (Option String)}
    (h : Policy.MissesList text keys) :
    Policy.listOfText text = (if none ∈ keys then .error .malformed else .ok []) ∧
    (none ∉ keys →
      (∀ files path, Files.readText files path = .ok text →
        PolicyFile.load files path = .ok ⟨path, [], LineIndex.ofText path text⟩) ∧
      ∀ files userPath options catalog registry found load,
        (Catalog.load files userPath options.catalog).run.run {} = (.ok catalog, registry) →
        List.Forall₂ (fun path found => FileSearch.policyFiles {} files path = .ok found)
          options.paths found →
        (∀ file ∈ found.flatten, file.text ≠ some text →
          PolicyFile.ofFound file = .ok (load file)) →
        Invocation.run files userPath (.check options) =
          CheckResult.outcome options.isStrict {
            CheckResult.ofFiles options.hidesLocation catalog
              ((found.flatten.filter (·.text ≠ some text)).map load) with
            files := found.flatten.length }) := by
  refine ⟨Policy.listOfText_of_missesList h, fun hscalars =>
    ⟨fun files path hread => PolicyFile.load_of_missesList hread h hscalars, ?_⟩⟩
  intro files userPath options catalog registry found load hcatalog hfound hload
  obtain ⟨load', hload', hkept, hempty⟩ := h.exists_load hscalars hload
  have hcheck : options.check files catalog =
      .ok (.ofFiles options.hidesLocation catalog (found.flatten.map load')) := by
    rw [CheckOptions.check_eq, PolicyFile.mapM_under_eq_ok hfound hload', List.map_flatten]
    rfl
  rw [Invocation.run_check_of_ok hcatalog hcheck, CheckResult.ofFiles_map_eq_filter]
  · exact fun file hother => hkept file (of_decide_eq_true hother)
  · intro file htext
    refine hempty file (Decidable.byContradiction fun hother => htext (decide_eq_true hother))

/-- A list of policies under a misspelled key. -/
def Policy.misspelledText : String :=
  "policys:\n- name: b\n  resource: ec2\n"

theorem Policy.missesList_misspelledText : MissesList misspelledText [some "policys"] := by
  have htokens : Yaml.Token.ofText? misspelledText = some [.blockMappingStart, .key,
      .scalar true "policys", .value, .blockEntry, .blockMappingStart, .key, .scalar true "name",
      .value, .scalar true "b", .key, .scalar true "resource", .value, .scalar true "ec2",
      .blockEnd, .blockEnd] := by
    decide +kernel
  have hroot : ∃ root, Yaml.Node.ofText? misspelledText = some root ∧
      root.rootKeys? = some [some "policys"] := by
    rw [Yaml.Node.ofText?, htokens]
    exact ⟨_, rfl, rfl⟩
  obtain ⟨root, hroot, hkeys⟩ := hroot
  exact ⟨root, hroot, hkeys, by decide⟩

/-- A strict check of a directory with a file whose list stands under a misspelled key
succeeds. -/
theorem Invocation.run_check_misspelledText :
    let root := FileTree.directory [("a.yml", .file (some Policy.misspelledText))]
    let files := Files.ofTree root []
    PolicyFile.load files "a.yml" = .ok ⟨"a.yml", [], .ofText "a.yml" Policy.misspelledText⟩ ∧
    Invocation.run files none (.check { paths := ["."], isStrict := true }) =
      { exitCode := 0, stdout := "Checked 0 policies in 1 files, 0 with deprecations\n" } := by
  intro root files
  obtain ⟨-, h⟩ := Invocation.run_check_of_missesList Policy.missesList_misspelledText
  obtain ⟨hload, hcheck⟩ := h (by decide)
  have hcatalog : ((Catalog.load files none none).run.run {}).1.isOk = true := by
    decide +kernel
  cases hrun : (Catalog.load files none none).run.run {} with
  | mk result registry =>
    rw [hrun] at hcatalog
    cases result with
    | error error => cases hcatalog
    | ok catalog =>
      have hothers : [[FoundFile.mk "./a.yml" (some Policy.misspelledText)]].flatten.filter
          (·.text ≠ some Policy.misspelledText) = [] := by
        simp
      refine ⟨hload files "a.yml" rfl, ?_⟩
      refine (hcheck files none { paths := ["."], isStrict := true } catalog registry
        [[⟨"./a.yml", some Policy.misspelledText⟩]] (fun file => ⟨file.path, [], .ofText "" ""⟩)
        hrun (.cons rfl .nil) ?_).trans ?_
      · intro file hfile hother
        exact absurd (congrArg FoundFile.text (List.mem_singleton.1 hfile)) hother
      · rw [hothers]
        change CheckResult.outcome true ⟨1, 0, 0, ""⟩ = _
        decide +kernel

/-- A list under a misspelled key is read as no list at all. -/
theorem Policy.listOfText_misspelledText :
    MissesList misspelledText [some "policys"] ∧ listOfText misspelledText = .ok [] :=
  ⟨missesList_misspelledText, listOfText_of_missesList missesList_misspelledText⟩

end PolicyLint
