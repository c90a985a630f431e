import Mathlib.Data.List.Basic
import PolicyLint.Files.Search
import PolicyLint.Proofs.NameMap

/-!
# Found files and their paths

A search gives each file with its path and with the text that it has at that time. Following
the path through the tree leads to the file again, so that reading it later gives the same text
(`FileSearch.look_of_mem_policyFiles`). The names in the tree must be such as directories have
(`FileTree.WellNamed`), since the path of an entry is made from that of its directory and its
name.
-/

namespace PolicyLint

/-! ## Paths of entries -/

namespace Path

/-- A name that an entry of a directory may have. -/
structure IsName (name : String) : Prop where
  ne_empty : name ≠ ""
  ne_dot : name ≠ "."
  ne_up : name ≠ ".."
  no_slash : '/' ∉ name.toList

instance (name : String) : Decidable (IsName name) :=
  decidable_of_iff (name ≠ "" ∧ name ≠ "." ∧ name ≠ ".." ∧ '/' ∉ name.toList)
    ⟨fun ⟨hempty, hdot, hup, hslash⟩ => ⟨hempty, hdot, hup, hslash⟩,
      fun h => ⟨h.ne_empty, h.ne_dot, h.ne_up, h.no_slash⟩⟩

theorem partsFrom_of_no_slash {text : List Char} (h : '/' ∉ text) (part : List Char) :
    partsFrom part text = [String.ofList (part.reverse ++ text)] := by
  induction text generalizing part with
  | nil => rw [partsFrom, List.append_nil]
  | cons c text ih =>
    have hc : c ≠ '/' := fun hc => h (hc ▸ List.mem_cons_self)
    rw [partsFrom, if_neg hc, ih fun hmem => h (List.mem_cons_of_mem _ hmem)]
    simp

theorem partsFrom_append_slash (part text rest : List Char) :
    partsFrom part (text ++ '/' :: rest) = partsFrom part text ++ partsFrom [] rest := by
  induction text generalizing part with
  | nil => simp [partsFrom]
  | cons c text ih =>
    rw [List.cons_append, partsFrom, partsFrom]
    split
    · rw [ih, List.cons_append]
    · exact ih _

theorem parts_append_slash_append (path : String) {name : String} (h : '/' ∉ name.toList) :
    parts (path ++ "/" ++ name) = parts path ++ [name] := by
  have htext : (path ++ "/" ++ name).toList = path.toList ++ '/' :: name.toList := by
    simp
  rw [parts, htext, partsFrom_append_slash, partsFrom_of_no_slash h, List.reverse_nil,
    List.nil_append, String.ofList_toList]
  rfl

/-- The path of an entry has one part more than that of its directory, where a slash at its end
does not count. -/
theorem parts_join (path : String) :
    ∃ front last, (last = [] ∨ last = [""]) ∧ parts path = front ++ last ∧
      ∀ name : String, '/' ∉ name.toList → parts (join path name) = front ++ [name] := by
  unfold join
  split
  · rename_i hlast
    obtain ⟨text, htext⟩ := List.getLast?_eq_some_iff.1 (beq_iff_eq.1 hlast)
    obtain rfl : path = String.ofList text ++ "/" := by
      rw [← String.toList_inj, htext]
      simp
    have hempty := @parts_append_slash_append (String.ofList text) "" (by simp)
    rw [String.append_empty] at hempty
    exact ⟨_, _, .inr rfl, hempty, fun _ h => parts_append_slash_append _ h⟩
  · exact ⟨parts path, [], .inl rfl, (List.append_nil _).symm,
      fun _ h => parts_append_slash_append path h⟩

theorem join_ne_empty (path : String) {name : String} (h : name ≠ "") : join path name ≠ "" := by
  unfold join
  split <;> simp [h]

theorem isAbsolute_join {path : String} (h : path ≠ "") (name : String) :
    isAbsolute (join path name) = isAbsolute path := by
  obtain ⟨c, text, htext⟩ := List.exists_cons_of_ne_nil (String.toList_eq_nil_iff.not.2 h)
  unfold join isAbsolute
  split <;> simp [htext]

end Path

/-! ## Walks -/

namespace FileTree

/-- Every entry in a tree has a name that an entry may have. -/
inductive WellNamed : FileTree → Prop
  | file (text : Option String) : WellNamed (file text)
  | directory {entries : List (String × FileTree)}
    (hnames : ∀ name tree, (name, tree) ∈ entries → Path.IsName name)
    (htrees : ∀ name tree, (name, tree) ∈ entries → WellNamed tree) :
    WellNamed (directory entries)

variable {above : List FileTree} {tree target : FileTree}

theorem wellNamed_nil : WellNamed (directory []) :=
  .directory nofun nofun

theorem WellNamed.cons {name : String} {entries : List (String × FileTree)}
    (hname : Path.IsName name) (htree : tree.WellNamed)
    (h : (FileTree.directory entries).WellNamed) :
    (FileTree.directory ((name, tree) :: entries)).WellNamed := by
  cases h with
  | directory hnames htrees =>
    refine .directory (fun other inner hmem => ?_) fun other inner hmem => ?_
    · rcases List.mem_cons.1 hmem with heq | hmem
      · rwa [(Prod.mk.inj heq).1]
      · exact hnames other inner hmem
    · rcases List.mem_cons.1 hmem with heq | hmem
      · rwa [(Prod.mk.inj heq).2]
      · exact htrees other inner hmem

theorem walk_directory (above : List FileTree) (entries : List (String × FileTree))
    (part : String) (parts : List String) :
    walk above (directory entries) (part :: parts) =
      if part == "" || part == "." then walk above (directory entries) parts
      else if part == ".." then walk above.tail (above.headD (directory entries)) parts
      else
        match entries.lookup part with
        | some tree => walk (directory entries :: above) tree parts
        | none => .error .missing := by
  cases above <;> rw [walk] <;> rfl

theorem mem_of_lookup_eq_some {entries : List (String × FileTree)} {name : String}
    (h : entries.lookup name = some tree) : (name, tree) ∈ entries := by
  obtain ⟨before, after, rfl, -⟩ := List.lookup_eq_some_iff.1 h
  exact List.mem_append_cons_self

theorem WellNamed.isName_of_lookup {entries : List (String × FileTree)} {name : String}
    (h : (FileTree.directory entries).WellNamed) (hentry : entries.lookup name = some tree) :
    Path.IsName name := by
  cases h with
  | directory hnames => exact hnames _ _ (mem_of_lookup_eq_some hentry)

theorem WellNamed.of_lookup {entries : List (String × FileTree)} {name : String}
    (h : (FileTree.directory entries).WellNamed) (hentry : entries.lookup name = some tree) :
    tree.WellNamed := by
  cases h with
  | directory _ htrees => exact htrees _ _ (mem_of_lookup_eq_some hentry)

/-- A part of a path leads from one directory to the next, or nowhere. Names that are in order
stay so. -/
theorem walk_cons_cases (above : List FileTree) (tree : FileTree) (part : String) :
    (∃ above' next, (∀ parts, walk above tree (part :: parts) = walk above' next parts) ∧
      ((∀ t ∈ tree :: above, t.WellNamed) → ∀ t ∈ next :: above', t.WellNamed)) ∨
      ∃ error, ∀ parts, walk above tree (part :: parts) = .error error := by
  cases tree with
  | file text => exact .inr ⟨.notDirectory, fun parts => by rw [walk]⟩
  | directory entries =>
    simp only [walk_directory]
    split
    · exact .inl ⟨above, directory entries, fun _ => rfl, id⟩
    split
    · refine .inl ⟨above.tail, above.headD (directory entries), fun _ => rfl, fun h t hmem => ?_⟩
      cases above with
      | nil => exact h t hmem
      | cons up above => exact h t (List.mem_cons_of_mem _ hmem)
    cases hentry : entries.lookup part with
    | none => exact .inr ⟨.missing, fun _ => rfl⟩
    | some next =>
      refine .inl ⟨directory entries :: above, next, fun _ => rfl, fun h t hmem => ?_⟩
      rcases List.mem_cons.1 hmem with rfl | hmem
      · exact (h _ List.mem_cons_self).of_lookup hentry
      · exact h t hmem

/-- A walk goes on from where it has come to, or does not get on. -/
theorem walk_append_cases (above : List FileTree) (tree : FileTree) (parts : List String) :
    (∃ above' target, (∀ more, walk above tree (parts ++ more) = walk above' target more) ∧
      ((∀ t ∈ tree :: above, t.WellNamed) → ∀ t ∈ target :: above', t.WellNamed)) ∨
      ∃ error, ∀ more, walk above tree (parts ++ more) = .error error := by
  induction parts generalizing above tree with
  | nil => exact .inl ⟨above, tree, fun _ => rfl, id⟩
  | cons part parts ih =>
    rcases walk_cons_cases above tree part with
      ⟨above', next, hnext, hnamed⟩ | ⟨error, herror⟩
    · simp only [List.cons_append, hnext]
      rcases ih above' next with ⟨above'', target, hmore, hnamed'⟩ | ⟨error, herror⟩
      · exact .inl ⟨above'', target, hmore, hnamed' ∘ hnamed⟩
      · exact .inr ⟨error, herror⟩
    · exact .inr ⟨error, fun more => herror _⟩

/-- A name leads to the entry that has it. -/
theorem walk_singleton_eq_ok_iff {entries : List (String × FileTree)} {name : String}
    (hname : Path.IsName name) :
    walk above (directory entries) [name] = .ok tree ↔ entries.lookup name = some tree := by
  rw [walk_directory, if_neg, if_neg]
  · cases entries.lookup name with
    | none => exact iff_of_false nofun nofun
    | some found => simp [walk]
  · simp [hname.ne_up]
  · simp [hname.ne_empty, hname.ne_dot]

theorem walk_empty_singleton (entries : List (String × FileTree)) :
    walk above (directory entries) [""] = .ok (directory entries) := by
  rw [walk_directory, if_pos (by rfl), walk]

end FileTree

/-! ## Looking up entries -/

namespace Files

variable {root tree : FileTree} {working : List String} {path : String}

theorem ne_empty_of_look (h : (ofTree root working).look path = .ok tree) : path ≠ "" := by
  rintro rfl
  cases h

/-- A path that is not empty is walked from the root, and so is the path of an entry. -/
theorem exists_look_eq_walk (root : FileTree) (working : List String) (h : path ≠ "") :
    ∃ start, (ofTree root working).look path = root.walk [] (start ++ Path.parts path) ∧
      ∀ name ≠ "", (ofTree root working).look (Path.join path name) =
        root.walk [] (start ++ Path.parts (Path.join path name)) := by
  have hlook {p : String} (hp : p ≠ "") : (ofTree root working).look p =
      root.walk [] ((if Path.isAbsolute p then [] else working) ++ Path.parts p) := by
    simp only [ofTree, String.isEmpty_iff, if_neg hp]
    split <;> rfl
  refine ⟨if Path.isAbsolute path then [] else working, hlook h, ?_⟩
  intro name hname
  rw [hlook (Path.join_ne_empty path hname), Path.isAbsolute_join h]

/-- What a path leads to in a tree whose names are in order has its names in order. -/
theorem wellNamed_of_look (hroot : root.WellNamed)
    (h : (ofTree root working).look path = .ok tree) : tree.WellNamed := by
  obtain ⟨start, hwalk, -⟩ := exists_look_eq_walk root working (ne_empty_of_look h)
  rw [h] at hwalk
  rcases FileTree.walk_append_cases [] root (start ++ Path.parts path) with
    ⟨above, target, hmore, hnamed⟩ | ⟨error, herror⟩
  · have hend := hmore []
    rw [List.append_nil, ← hwalk] at hend
    obtain rfl := Except.ok.inj hend
    exact hnamed (fun t hmem => List.mem_singleton.1 hmem ▸ hroot) _ List.mem_cons_self
  · have hend := herror []
    rw [List.append_nil, ← hwalk] at hend
    cases hend

/-- The path of an entry leads to the entry, and to nothing where there is none. -/
theorem look_join_eq_ok_iff {name : String} (hpath : path ≠ "") (hname : Path.IsName name) :
    (ofTree root working).look (Path.join path name) = .ok tree ↔
      ∃ entries, (ofTree root working).look path = .ok (.directory entries) ∧
        entries.lookup name = some tree := by
  obtain ⟨start, hwalk, hjoin⟩ := exists_look_eq_walk root working hpath
  obtain ⟨front, last, hlast, hparts, hname'⟩ := Path.parts_join path
  rw [hwalk, hjoin name hname.ne_empty, hparts, hname' name hname.no_slash, ← List.append_assoc,
    ← List.append_assoc]
  -- Both walks share their front, and a slash at the end of the path leads no further.
  rcases FileTree.walk_append_cases [] root (start ++ front) with
    ⟨above, target, hmore, -⟩ | ⟨error, herror⟩
  · rw [hmore, hmore]
    cases target with
    | file text =>
      refine iff_of_false nofun ?_
      rintro ⟨entries, hentries, -⟩
      rcases hlast with rfl | rfl <;> cases hentries
    | directory entries =>
      have hend : FileTree.walk above (.directory entries) last = .ok (.directory entries) := by
        rcases hlast with rfl | rfl
        · rfl
        · exact FileTree.walk_empty_singleton entries
      rw [FileTree.walk_singleton_eq_ok_iff hname, hend]
      simp only [Except.ok.injEq, FileTree.directory.injEq, exists_eq_left']
  · rw [herror, herror]
    exact iff_of_false nofun nofun

end Files

/-! ## Found files -/

namespace FileSearch

variable {search : FileSearch} {root : FileTree} {working : List String}

theorem get?_inEntries (search : FileSearch) (path : String) (entries : List (String × FileTree))
    (name : String) :
    (search.inEntries path entries).get? name =
      (entries.lookup name).map (search.inEntry (Path.join path name) name) := by
  induction entries with
  | nil => rfl
  | cons entry entries ih =>
    obtain ⟨entryName, tree⟩ := entry
    rw [inEntries, NameMap.get?_insert, NameMap.lookup_cons_eq]
    split
    · subst_vars
      rfl
    · exact ih

/-- A file found in a directory is found in one of its entries. -/
theorem exists_of_mem_inEntries {path : String} {entries : List (String × FileTree)}
    {file : FoundFile} (h : file ∈ (search.inEntries path entries).values.flatten) :
    ∃ name tree, entries.lookup name = some tree ∧
      file ∈ search.inEntry (Path.join path name) name tree := by
  obtain ⟨found, hfound, hfile⟩ := List.mem_flatten.1 h
  obtain ⟨name, hname⟩ := NameMap.mem_values_iff.1 hfound
  rw [get?_inEntries] at hname
  obtain ⟨tree, htree, rfl⟩ := Option.map_eq_some_iff.1 hname
  exact ⟨name, tree, htree, hfile⟩

/-- The path of a file that is found at a place leads to the file. -/
theorem look_of_mem_inEntry {tree : FileTree} (htree : tree.WellNamed) {path name : String}
    (hlook : (Files.ofTree root working).look path = .ok tree) {file : FoundFile}
    (hfile : file ∈ search.inEntry path name tree) :
    (Files.ofTree root working).look file.path = .ok (.file file.text) := by
  induction htree generalizing path name with
  | file text =>
    rw [inEntry] at hfile
    split at hfile
    · obtain rfl := List.mem_singleton.1 hfile
      exact hlook
    · cases hfile
  | @directory entries hnames htrees ih =>
    rw [inEntry] at hfile
    split at hfile
    · cases hfile
    · obtain ⟨entryName, tree, hentry, hfile⟩ := exists_of_mem_inEntries hfile
      have hmem := FileTree.mem_of_lookup_eq_some hentry
      have hentry' := (Files.look_join_eq_ok_iff (Files.ne_empty_of_look hlook)
        (hnames _ _ hmem)).2 ⟨entries, hlook, hentry⟩
      exact ih entryName tree hmem hentry' hfile

/-- The path of every file that a search finds leads to that file. -/
theorem look_of_mem_policyFiles (hroot : root.WellNamed) {path : String}
    {found : List FoundFile}
    (hfound : search.policyFiles (Files.ofTree root working) path = .ok found)
    {file : FoundFile} (hfile : file ∈ found) :
    (Files.ofTree root working).look file.path = .ok (.file file.text) := by
  rw [policyFiles] at hfound
  cases hlook : (Files.ofTree root working).look path with
  | error error =>
    rw [hlook] at hfound
    cases hfound
  | ok tree =>
    rw [hlook] at hfound
    cases tree with
    | file text =>
      obtain rfl := Except.ok.inj hfound
      obtain rfl := List.mem_singleton.1 hfile
      exact hlook
    | directory entries =>
      obtain rfl := Except.ok.inj hfound
      obtain ⟨name, tree, hentry, hfile⟩ := exists_of_mem_inEntries hfile
      have hnamed := Files.wellNamed_of_look hroot hlook
      have hentry' := (Files.look_join_eq_ok_iff (Files.ne_empty_of_look hlook)
        (hnamed.isName_of_lookup hentry)).2 ⟨entries, hlook, hentry⟩
      exact look_of_mem_inEntry (hnamed.of_lookup hentry) hentry' hfile

end FileSearch

end PolicyLint
