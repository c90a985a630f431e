import PolicyLint.Proofs.ByteOrder
import PolicyLint.Proofs.Files.Found
import PolicyLint.Proofs.Places

/-!
# What a search finds

A search from a directory finds the files below it that have the extension of policy files, are
reached through no excluded directory and, unless the search is recursive, lie in the directory
itself (`FileSearch.Wants`). It finds nothing else, and lists the files in the order of their
paths, compared part by part and each part by its bytes. A search from a file finds that file,
and a search from anywhere else fails (`FileSearch.Yields`).

Main statement : this says for any tree what a search gives (`FileSearch.eq_policyFiles_iff`).
The search itself follows the entries of directories (`FileSearch.Finds`).
-/

namespace PolicyLint

/-! ## Names of policy files -/

namespace Path

/-- Whether a name ends in `.yml` or `.yaml` behind something else, in letters of either
case. -/
def HasPolicyExtension (name : String) : Prop :=
  ∃ stem extension, name.toList = stem ++ '.' :: extension ∧ stem ≠ [] ∧ '.' ∉ extension ∧
    extension.map Char.toLower ∈ ["yml".toList, "yaml".toList]

theorem extensionOfName?_eq_some_iff {name extension : List Char} :
    extensionOfName? name = some extension ↔
      ∃ stem, name = stem ++ '.' :: extension ∧ stem ≠ [] ∧ '.' ∉ extension := by
  unfold extensionOfName?
  constructor
  · intro h
    obtain ⟨hlength, h⟩ := Option.ite_none_right_eq_some.1 h
    have hextension : extension = (name.reverse.takeWhile (· != '.')).reverse :=
      (Option.some.inj h).symm
    rw [← hextension] at hlength
    have hdot : '.' ∉ extension := by
      intro h
      rw [hextension, List.mem_reverse] at h
      simpa using List.all_eq_true.1 List.all_takeWhile _ h
    have hname : name = (name.reverse.dropWhile (· != '.')).reverse ++ extension := by
      rw [hextension, ← List.reverse_append, List.takeWhile_append_dropWhile,
        List.reverse_reverse]
    have hhead := List.head?_dropWhile_not (· != '.') name.reverse
    generalize name.reverse.dropWhile (· != '.') = rest at hname hhead
    subst hname
    cases rest with
    | nil =>
      simp only [List.reverse_nil, List.nil_append] at hlength
      omega
    | cons c stem =>
      obtain rfl : c = '.' := by simpa using hhead
      refine ⟨stem.reverse, by simp, ?_, hdot⟩
      rintro hstem
      simp only [List.reverse_cons, hstem, List.length_append, List.length_cons,
        List.length_nil] at hlength
      omega
  · rintro ⟨stem, rfl, hstem, hdot⟩
    have htake : ((stem ++ '.' :: extension).reverse.takeWhile (· != '.')).reverse = extension := by
      rw [List.reverse_append, List.reverse_cons, List.append_assoc,
        List.takeWhile_append_of_pos fun c hc => by
          simpa using fun h : c = '.' => hdot (h ▸ List.mem_reverse.1 hc)]
      simp
    have hlength := List.length_pos_of_ne_nil hstem
    simp only [htake, List.length_append, List.length_cons]
    rw [if_pos (by omega)]

/-- The paths of entries at any depth have the names of these entries behind the same parts. -/
theorem exists_parts_foldl_join (path : String) :
    ∃ front, ∀ names ≠ [], (∀ name ∈ names, IsName name) →
      parts (names.foldl join path) = front ++ names := by
  obtain ⟨front, -, -, -, hfront⟩ := parts_join path
  refine ⟨front, fun names => ?_⟩
  induction names using List.reverseRecOn with
  | nil => exact fun h => absurd rfl h
  | append_singleton names name ih =>
    intro _ hnames
    have hname := hnames name (by simp)
    rw [List.foldl_append, List.foldl_cons, List.foldl_nil]
    by_cases hnil : names = []
    · subst hnil
      exact hfront name hname.no_slash
    · have hparts := ih hnil fun other hother => hnames other (by simp [hother])
      obtain ⟨front', last, hlast, hpath, hjoin⟩ := parts_join (names.foldl join path)
      -- The last part so far is a name, so no slash follows it.
      have hlast : last = [] := by
        refine hlast.resolve_right ?_
        rintro rfl
        rw [hparts] at hpath
        have hend := congrArg List.getLast? hpath
        rw [List.getLast?_append_of_ne_nil _ hnil, List.getLast?_concat] at hend
        exact (hnames "" (by simp [List.mem_of_getLast? hend])).ne_empty rfl
      rw [hjoin name hname.no_slash, ← List.append_assoc, ← hparts, hpath, hlast,
        List.append_nil]

theorem name?_join (path : String) {name : String} (hname : IsName name) :
    name? (join path name) = some name := by
  obtain ⟨front, -, -, -, hfront⟩ := parts_join path
  have hlast : (((front ++ [name]).filter fun part => part != "" && part != ".").getLast?) =
      some name := by
    simp [hname.ne_empty, hname.ne_dot]
  rw [name?, hfront name hname.no_slash, hlast]
  split
  · rename_i heq
    exact absurd (Option.some.inj heq) hname.ne_up
  · rfl

theorem isPolicyFile_join_iff (path : String) {name : String} (hname : IsName name) :
    isPolicyFile (join path name) = true ↔ HasPolicyExtension name := by
  rw [isPolicyFile, extension?, name?_join path hname, Option.bind_some, HasPolicyExtension]
  constructor
  · intro h
    split at h
    · rename_i extension hextension
      obtain ⟨stem, hname, hstem, hdot⟩ := extensionOfName?_eq_some_iff.1 hextension
      exact ⟨stem, extension, hname, hstem, hdot, by simpa using h⟩
    · cases h
  · rintro ⟨stem, extension, hname, hstem, hdot, hlower⟩
    rw [extensionOfName?_eq_some_iff.2 ⟨stem, hname, hstem, hdot⟩]
    simpa using hlower

/-- The bytes of the parts of a path. -/
def partBytes (path : String) : List (List UInt8) :=
  (parts path).map Text.bytes

end Path

namespace FileSearch

variable {search : FileSearch} {path : String}

/-! ## What is found in the entries of a directory -/

/-- A policy file that is to be found in the entries of the directory at `path`, with the names
on the way to it. -/
inductive Finds (search : FileSearch) :
    String → List (String × FileTree) → List String → FoundFile → Prop
  | file {path name : String} {entries : List (String × FileTree)} {text : Option String}
    (hentry : entries.lookup name = some (.file text))
    (hextension : Path.HasPolicyExtension name) :
    Finds search path entries [name] ⟨Path.join path name, text⟩
  | directory {path name : String} {entries inner : List (String × FileTree)}
    {names : List String} {file : FoundFile} (hrecursive : search.isRecursive = true)
    (hexcluded : name ∉ search.excludedNames)
    (hentry : entries.lookup name = some (.directory inner))
    (hfile : Finds search (Path.join path name) inner names file) :
    Finds search path entries (name :: names) file

theorem finds_file_iff {name : String} {entries : List (String × FileTree)}
    {text : Option String} (hentry : entries.lookup name = some (.file text))
    {names : List String} {file : FoundFile} :
    search.Finds path entries (name :: names) file ↔
      names = [] ∧ Path.HasPolicyExtension name ∧ file = ⟨Path.join path name, text⟩ := by
  constructor
  · intro h
    cases h with
    | file hentry' hextension =>
      rw [hentry] at hentry'
      cases hentry'
      exact ⟨rfl, hextension, rfl⟩
    | directory _ _ hentry' => cases hentry.symm.trans hentry'
  · rintro ⟨rfl, hextension, rfl⟩
    exact .file hentry hextension

theorem finds_directory_iff {name : String} {entries inner : List (String × FileTree)}
    (hentry : entries.lookup name = some (.directory inner)) {names : List String}
    {file : FoundFile} :
    search.Finds path entries (name :: names) file ↔ (search.isRecursive = true ∧
      name ∉ search.excludedNames) ∧ search.Finds (Path.join path name) inner names file := by
  constructor
  · intro h
    cases h with
    | file hentry' => cases hentry.symm.trans hentry'
    | directory hrecursive hexcluded hentry' hfile =>
      rw [hentry] at hentry'
      cases hentry'
      exact ⟨⟨hrecursive, hexcluded⟩, hfile⟩
  · rintro ⟨⟨hrecursive, hexcluded⟩, hfile⟩
    exact .directory hrecursive hexcluded hentry hfile

/-- What is found stands under the name of an entry. -/
theorem standsUnder_finds_iff {entries : List (String × FileTree)} {names : List String}
    {file : FoundFile} :
    StandsUnder Prod.fst (fun entry names => search.Finds path entries (entry.1 :: names))
      (search.inEntries path entries).entries names file ↔
        search.Finds path entries names file := by
  constructor
  · rintro ⟨entry, -, rest, rfl, hfinds⟩
    exact hfinds
  · intro hfinds
    obtain ⟨name, rest, tree, rfl, hentry⟩ : ∃ name rest tree, names = name :: rest ∧
        entries.lookup name = some tree := by
      cases hfinds with
      | file hentry => exact ⟨_, _, _, rfl, hentry⟩
      | directory _ _ hentry => exact ⟨_, _, _, rfl, hentry⟩
    refine ⟨(name, search.inEntry (Path.join path name) name tree),
      NameMap.mem_entries_iff.2 ?_, rest, rfl, hfinds⟩
    rw [get?_inEntries, hentry, Option.map_some]

/-- A file among the entries of a directory is listed if its name is that of a policy file. -/
theorem exists_listsAll_inEntry_file {name : String} {entries : List (String × FileTree)}
    {text : Option String} (hname : Path.IsName name)
    (hentry : entries.lookup name = some (.file text)) :
    ∃ found, ListsAll (fun names => search.Finds path entries (name :: names)) found ∧
      found.map Prod.snd = search.inEntry (Path.join path name) name (.file text) := by
  have hpolicy := Path.isPolicyFile_join_iff path hname
  rw [inEntry]
  by_cases hextension : Path.HasPolicyExtension name
  · rw [if_pos (hpolicy.2 hextension)]
    refine ⟨[([], ⟨Path.join path name, text⟩)], ⟨List.pairwise_singleton _ _, ?_⟩, rfl⟩
    intro names file
    rw [List.mem_singleton, finds_file_iff hentry, Prod.mk.injEq]
    exact and_congr_right fun _ => (and_iff_right hextension).symm
  · rw [if_neg (mt hpolicy.1 hextension)]
    refine ⟨[], ⟨.nil, fun names file => iff_of_false List.not_mem_nil ?_⟩, rfl⟩
    rw [finds_file_iff hentry]
    exact fun h => hextension h.2.1

/-- What is listed in a subdirectory is listed there, unless the search passes it over. -/
theorem exists_listsAll_inEntry_directory {name : String}
    {entries inner : List (String × FileTree)}
    (hentry : entries.lookup name = some (.directory inner))
    (h : ∃ found, ListsAll (search.Finds (Path.join path name) inner) found ∧
      found.map Prod.snd = (search.inEntries (Path.join path name) inner).values.flatten) :
    ∃ found, ListsAll (fun names => search.Finds path entries (name :: names)) found ∧
      found.map Prod.snd = search.inEntry (Path.join path name) name (.directory inner) := by
  rw [inEntry]
  split
  · rename_i hpassed
    refine ⟨[], ⟨.nil, fun names file => iff_of_false List.not_mem_nil ?_⟩, rfl⟩
    rw [finds_directory_iff hentry]
    rintro ⟨⟨hrecursive, hexcluded⟩, -⟩
    simp [hrecursive, hexcluded] at hpassed
  · rename_i hpassed
    have hwanted : search.isRecursive = true ∧ name ∉ search.excludedNames := by
      simpa using hpassed
    obtain ⟨found, hfound, hmap⟩ := h
    refine ⟨found, ⟨hfound.sorted, fun names file => ?_⟩, hmap⟩
    rw [hfound.mem_iff, finds_directory_iff hentry, and_iff_right hwanted]

/-- A search lists what is to be found in the entries of a directory, in the order of the names
on the way. -/
theorem exists_listsAll_inEntries {entries : List (String × FileTree)}
    (hnamed : (FileTree.directory entries).WellNamed) (path : String) :
    ∃ found, ListsAll (search.Finds path entries) found ∧
      found.map Prod.snd = (search.inEntries path entries).values.flatten := by
  -- The induction is on the tree, so that it reaches the entries of subdirectories.
  generalize htree : FileTree.directory entries = tree at hnamed
  induction hnamed generalizing entries path with
  | file text => cases htree
  | @directory entries hnames htrees ih =>
    cases htree
    have hitems : ∀ entry ∈ (search.inEntries path entries).entries, ∃ found,
        ListsAll (fun names => search.Finds path entries (entry.1 :: names)) found ∧
          found.map Prod.snd = entry.2 := by
      rintro ⟨name, files⟩ hfiles
      rw [NameMap.mem_entries_iff, get?_inEntries] at hfiles
      obtain ⟨tree, hentry, rfl⟩ := Option.map_eq_some_iff.1 hfiles
      have hmem := FileTree.mem_of_lookup_eq_some hentry
      cases tree with
      | file text => exact exists_listsAll_inEntry_file (hnames _ _ hmem) hentry
      | directory inner =>
        exact exists_listsAll_inEntry_directory hentry (ih name _ hmem (Path.join path name) rfl)
    obtain ⟨found, hfound, hmap⟩ := exists_listsAll_standsUnder
      (search.inEntries path entries).sorted hitems
    refine ⟨found, ⟨hfound.sorted, fun names file => ?_⟩, ?_⟩
    · rw [hfound.mem_iff, standsUnder_finds_iff]
    · rw [hmap, NameMap.values, List.flatMap_def]

/-! ## What is found below a directory -/

/-- A policy file below the directory at `path`, with the names on the way to it, that a search
is to find : the way leads through directories that are not excluded, and through none at all
unless the search is recursive. -/
inductive Wants (search : FileSearch) (files : Files) (path : String) :
    List String → FoundFile → Prop
  | intro {directories : List String} {name : String} {text : Option String}
    (hnames : ∀ part ∈ directories ++ [name], Path.IsName part)
    (hfile : files.look ((directories ++ [name]).foldl Path.join path) = .ok (.file text))
    (hextension : Path.HasPolicyExtension name)
    (hexcluded : ∀ directory ∈ directories, directory ∉ search.excludedNames)
    (hdepth : search.isRecursive = false → directories = []) :
    Wants search files path (directories ++ [name])
      ⟨(directories ++ [name]).foldl Path.join path, text⟩

variable {root : FileTree} {working : List String} {entries : List (String × FileTree)}
  {names : List String} {file : FoundFile}

theorem Finds.wants (h : search.Finds path entries names file)
    (hnamed : (FileTree.directory entries).WellNamed)
    (hlook : (Files.ofTree root working).look path = .ok (.directory entries)) :
    search.Wants (Files.ofTree root working) path names file := by
  induction h with
  | @file path name entries text hentry hextension =>
    have hname := hnamed.isName_of_lookup hentry
    show search.Wants _ path ([] ++ [name]) ⟨([] ++ [name]).foldl Path.join path, text⟩
    refine .intro (by simpa using hname) ?_ hextension nofun fun _ => rfl
    exact (Files.look_join_eq_ok_iff (Files.ne_empty_of_look hlook) hname).2
      ⟨entries, hlook, hentry⟩
  | @directory path name entries inner names file hrecursive hexcluded hentry _ ih =>
    have hname := hnamed.isName_of_lookup hentry
    have hinner := (Files.look_join_eq_ok_iff (Files.ne_empty_of_look hlook) hname).2
      ⟨entries, hlook, hentry⟩
    obtain @⟨directories, last, text, hnames', hfile, hextension, hexcluded', -⟩ :=
      ih (hnamed.of_lookup hentry) hinner
    show search.Wants _ path ((name :: directories) ++ [last])
      ⟨((name :: directories) ++ [last]).foldl Path.join path, text⟩
    refine .intro (List.forall_mem_cons.2 ⟨hname, hnames'⟩) hfile hextension
      (List.forall_mem_cons.2 ⟨hexcluded, hexcluded'⟩) fun h => ?_
    cases hrecursive.symm.trans h

/-- What lies below a path that leads to something lies below a directory. -/
theorem exists_directory_of_look_foldl_join (hnil : names ≠ [])
    (hnames : ∀ name ∈ names, Path.IsName name) {tree : FileTree} {path : String}
    (hpath : path ≠ "")
    (hlook : (Files.ofTree root working).look (names.foldl Path.join path) = .ok tree) :
    ∃ entries, (Files.ofTree root working).look path = .ok (.directory entries) := by
  induction names generalizing path with
  | nil => exact absurd rfl hnil
  | cons name names ih =>
    obtain ⟨hname, hnames⟩ := List.forall_mem_cons.1 hnames
    obtain ⟨next, hnext⟩ :
        ∃ next, (Files.ofTree root working).look (Path.join path name) = .ok next := by
      by_cases hnil : names = []
      · subst hnil
        exact ⟨tree, hlook⟩
      · obtain ⟨inner, hinner⟩ := ih hnil hnames (Path.join_ne_empty path hname.ne_empty) hlook
        exact ⟨_, hinner⟩
    obtain ⟨entries, hentries, -⟩ := (Files.look_join_eq_ok_iff hpath hname).1 hnext
    exact ⟨entries, hentries⟩

theorem Wants.finds (h : search.Wants (Files.ofTree root working) path names file)
    (hlook : (Files.ofTree root working).look path = .ok (.directory entries)) :
    search.Finds path entries names file := by
  obtain @⟨directories, name, text, hnames, hfile, hextension, hexcluded, hdepth⟩ := h
  induction directories generalizing path entries with
  | nil =>
    have hname := hnames name (by simp)
    obtain ⟨entries', hentries, hentry⟩ :=
      (Files.look_join_eq_ok_iff (Files.ne_empty_of_look hlook) hname).1 hfile
    cases hlook.symm.trans hentries
    exact .file hentry hextension
  | cons directory directories ih =>
    obtain ⟨hname, hnames⟩ := List.forall_mem_cons.1 hnames
    obtain ⟨hexcluded, hexcluded'⟩ := List.forall_mem_cons.1 hexcluded
    have hrecursive : search.isRecursive = true := by
      refine Bool.eq_true_of_not_eq_false fun h => ?_
      cases hdepth h
    have hpath := Files.ne_empty_of_look hlook
    obtain ⟨inner, hinner⟩ := exists_directory_of_look_foldl_join (by simp) hnames
      (Path.join_ne_empty path hname.ne_empty) hfile
    obtain ⟨entries', hentries, hentry⟩ := (Files.look_join_eq_ok_iff hpath hname).1 hinner
    cases hlook.symm.trans hentries
    refine .directory hrecursive hexcluded hentry (ih hinner hnames hfile hexcluded' fun h => ?_)
    cases hrecursive.symm.trans h

/-- The files found below a directory are in the order of the bytes of their paths if they are in
the order of the names on the way. -/
theorem exists_partBytes_lt (path : String) : ∃ front : List (List UInt8),
    ∀ {files : Files} {names : List String} {file : FoundFile},
      search.Wants files path names file →
        Path.partBytes file.path = front ++ names.map Text.bytes := by
  obtain ⟨front, hfront⟩ := Path.exists_parts_foldl_join path
  refine ⟨front.map Text.bytes, fun h => ?_⟩
  obtain ⟨hnames, -⟩ := h
  rw [Path.partBytes, hfront _ (by simp) hnames, List.map_append]

/-! ## Searches -/

/-- What a search from `path` is to give. -/
inductive Yields (search : FileSearch) (files : Files) (path : String) :
    Except LoadError (List FoundFile) → Prop
  | missing {error : ReadError} (hlook : files.look path = .error error) :
    Yields search files path (.error (.pathMissing path))
  | file {text : Option String} (hlook : files.look path = .ok (.file text)) :
    Yields search files path (.ok [⟨path, text⟩])
  | directory {entries : List (String × FileTree)} {found : List FoundFile}
    (hlook : files.look path = .ok (.directory entries))
    (hmem : ∀ file, file ∈ found ↔ ∃ names, search.Wants files path names file)
    (hsorted : found.Pairwise fun a b => Path.partBytes a.path < Path.partBytes b.path)
    (hnodup : (found.map FoundFile.path).Nodup) : Yields search files path (.ok found)

theorem Yields.unique {files : Files} {result result' : Except LoadError (List FoundFile)}
    (h : search.Yields files path result) (h' : search.Yields files path result') :
    result = result' := by
  cases h with
  | missing hlook =>
    cases h' with
    | missing => rfl
    | file hlook' => cases hlook.symm.trans hlook'
    | directory hlook' => cases hlook.symm.trans hlook'
  | file hlook =>
    cases h' with
    | missing hlook' => cases hlook.symm.trans hlook'
    | file hlook' =>
      cases hlook.symm.trans hlook'
      rfl
    | directory hlook' => cases hlook.symm.trans hlook'
  | @directory entries found hlook hmem hsorted hnodup =>
    cases h' with
    | missing hlook' => cases hlook.symm.trans hlook'
    | file hlook' => cases hlook.symm.trans hlook'
    | @directory _ found' hlook' hmem' hsorted' =>
      have : Std.Irrefl fun a b : FoundFile => Path.partBytes a.path < Path.partBytes b.path :=
        ⟨fun a => List.lt_irrefl _⟩
      have : Std.Asymm fun a b : FoundFile => Path.partBytes a.path < Path.partBytes b.path :=
        ⟨fun a b => List.lt_asymm⟩
      rw [hsorted.eq_of_mem_iff hsorted' fun file => (hmem file).trans (hmem' file).symm]

theorem yields_policyFiles (search : FileSearch) (hroot : root.WellNamed) (working : List String)
    (path : String) : search.Yields (Files.ofTree root working) path
      (search.policyFiles (Files.ofTree root working) path) := by
  rw [policyFiles]
  cases hlook : (Files.ofTree root working).look path with
  | error error => exact .missing hlook
  | ok tree =>
    cases tree with
    | file text => exact .file hlook
    | directory entries =>
      have hnamed := Files.wellNamed_of_look hroot hlook
      obtain ⟨found, hfound, hmap⟩ := search.exists_listsAll_inEntries hnamed path
      obtain ⟨front, hfront⟩ := search.exists_partBytes_lt path
      have hwants : ∀ names file, (names, file) ∈ found ↔
          search.Wants (Files.ofTree root working) path names file := by
        intro names file
        rw [hfound.mem_iff]
        exact ⟨fun h => h.wants hnamed hlook, fun h => h.finds hlook⟩
      have hsorted : (found.map Prod.snd).Pairwise fun a b =>
          Path.partBytes a.path < Path.partBytes b.path := by
        refine List.pairwise_map.2 (hfound.sorted.imp_of_mem ?_)
        rintro ⟨names, file⟩ ⟨names', file'⟩ hmem hmem' hlt
        rw [hfront ((hwants _ _).1 hmem), hfront ((hwants _ _).1 hmem')]
        exact List.append_left_lt (List.map_lt (fun _ _ => Text.bytes_lt_bytes) hlt)
      show search.Yields _ path (.ok (search.inEntries path entries).values.flatten)
      rw [← hmap]
      refine .directory hlook (fun file => ?_) hsorted (List.pairwise_map.2 (hsorted.imp ?_))
      · simp only [List.mem_map, Prod.exists, hwants, exists_eq_right]
      · intro a b hlt heq
        rw [heq] at hlt
        exact List.lt_irrefl _ hlt

/-- In a tree whose names are in order, a search gives what it is to give, and nothing else. -/
theorem eq_policyFiles_iff (search : FileSearch) (hroot : root.WellNamed) (working : List String)
    (path : String) (result : Except LoadError (List FoundFile)) :
    result = search.policyFiles (Files.ofTree root working) path ↔
      search.Yields (Files.ofTree root working) path result := by
  have hyields := search.yields_policyFiles hroot working path
  constructor
  · rintro rfl
    exact hyields
  · exact fun h => h.unique hyields

/-- A directory with the name of a policy file is searched like any other, a file may have the
name of an excluded directory, and no stem is no name. -/
theorem yields_crowded :
    let search := FileSearch.exclude {} "old.yml"
    let root := FileTree.directory
      [("a.yml", .file (some "")), ("target", .directory [("b.yml", .file (some ""))]),
        ("a", .directory [("x.YAML", .file none), (".yml", .file (some ""))]),
        ("c.yml", .directory [("old.yml", .file (some ""))])]
    let files := Files.ofTree root []
    let found : List FoundFile :=
      [⟨"./a/x.YAML", none⟩, ⟨"./a.yml", some ""⟩, ⟨"./c.yml/old.yml", some ""⟩]
    root.WellNamed ∧ search.policyFiles files "./" = .ok found ∧
      search.Yields files "./" (.ok found) := by
  intro search root files found
  have hroot : root.WellNamed := by
    refine .cons (by decide) (.file _) <| .cons (by decide) (.cons (by decide) (.file _) ?_) <|
      .cons (by decide) (.cons (by decide) (.file _) <| .cons (by decide) (.file _) ?_) <|
      .cons (by decide) (.cons (by decide) (.file _) ?_) ?_ <;>
    exact FileTree.wellNamed_nil
  have hfound : search.policyFiles files "./" = .ok found := by
    rfl
  exact ⟨hroot, hfound, (search.eq_policyFiles_iff hroot [] "./" (.ok found)).1 hfound.symm⟩

end FileSearch

end PolicyLint
