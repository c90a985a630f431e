import PolicyLint.Proofs.DistinctNames
import PolicyLint.Proofs.Policy.BlockScope
import PolicyLint.Proofs.Policy.VoidLines

/-!
# What an index says of any text

No form is asked of the text here, which need not even be YAML. A scan gives a name only on a
line that shows a key for it (`ShowsKey`), and the entries of the index are the first ones of the
scan (`sublist_firstNames`), one for each name (`firstPlaces_firstNames`).

Main statement : the names in an index are distinct, their lines ascend and show keys for them
behind a line that begins with `policies:`, and the line of a name is the least that the scan
gives (`positions_ofText_sound`).
-/

namespace PolicyLint.LineIndex

open Text (Blank)

/-! ## Keys on lines -/

/-- A line shows a key : white space stands in front of it, and there may be a dash with white
space on both sides. -/
inductive ShowsKey (key : List Char) : List Char → Prop
  | alone {pad : List Char} (hpad : Blank pad) : ShowsKey key (pad ++ key)
  | dashed {pad pad' : List Char} (hpad : Blank pad) (hpad' : Blank pad') :
    ShowsKey key (pad ++ '-' :: (pad' ++ key))

theorem showsKey_trimStart (line : List Char) : ShowsKey (Text.trimStart line) line := by
  have h : ShowsKey (Text.trimStart line) (line.takeWhile Text.isSpace ++ Text.trimStart line) :=
    .alone (Text.blank_takeWhile line)
  rwa [Text.takeWhile_append_trimStart] at h

theorem showsKey_of_dash {line rest : List Char} (h : Text.trimStart line = '-' :: rest) :
    ShowsKey (Text.trimStart rest) line := by
  have hshows : ShowsKey (Text.trimStart rest) (line.takeWhile Text.isSpace ++
      '-' :: (rest.takeWhile Text.isSpace ++ Text.trimStart rest)) :=
    .dashed (Text.blank_takeWhile line) (Text.blank_takeWhile rest)
  rwa [Text.takeWhile_append_trimStart, ← h, Text.takeWhile_append_trimStart] at hshows

/-- A line of an open list gives the name of a key that it shows. -/
theorem exists_showsKey_of_blockLine {block column : Nat} {line name : List Char} {s : State}
    (h : (blockLine block column (Text.trimStart line) s).2 = some name) :
    ∃ key, ShowsKey key line ∧ name? key = some name := by
  unfold blockLine at h
  split at h
  · rename_i rest hdash
    dsimp only at h
    split at h
    · cases h
    · exact ⟨_, showsKey_of_dash hdash, h⟩
  · dsimp only at h
    split at h
    · exact ⟨_, showsKey_trimStart line, h⟩
    · cases h

/-- A line that gives a name shows a key for it. -/
theorem exists_nameKey_of_line {s : State} {line name : List Char}
    (h : (LineIndex.line s line).2 = some name) : ∃ key, ShowsKey key line ∧ NameKey name key := by
  rw [snd_line] at h
  split at h
  · cases h
  · obtain ⟨block, -, hblock⟩ := Option.bind_eq_some_iff.1 h
    obtain ⟨key, hshows, hname⟩ := exists_showsKey_of_blockLine hblock
    exact ⟨key, hshows, name?_eq_some_iff.1 hname⟩

/-- Every name of a scan stands on one of the lines, which shows a key for it. -/
theorem exists_line_of_mem_namesFrom {s : State} {start : Nat} {lines : List (List Char)}
    {entry : String × Nat} (h : entry ∈ namesFrom s start lines) :
    ∃ i line, entry.2 = start + i ∧ lines[i]? = some line ∧
      ∃ key, ShowsKey key line ∧ NameKey entry.1.toList key := by
  induction lines generalizing s start with
  | nil => cases h
  | cons text lines ih =>
    obtain ⟨⟨s', name⟩, hline⟩ : ∃ result, LineIndex.line s text = result := ⟨_, rfl⟩
    rw [namesFrom_cons hline, List.mem_append] at h
    rcases h with hfirst | hlater
    · obtain ⟨name', rfl, rfl⟩ := Option.map_eq_some_iff.1 (Option.mem_toList.1 hfirst)
      obtain ⟨key, hshows, hkey⟩ := exists_nameKey_of_line (congrArg Prod.snd hline)
      exact ⟨0, text, rfl, rfl, key, hshows, by rwa [String.toList_ofList]⟩
    · obtain ⟨i, line, hnumber, hget, hkey⟩ := ih hlater
      exact ⟨i + 1, line, by omega, hget, hkey⟩

/-! ## The entries of an index -/

theorem firstPlaces_firstNames (names : List (String × Nat)) :
    FirstPlaces (names.map Prod.fst) ((firstNames names).map Prod.fst) := by
  induction names with
  | nil => exact ⟨.nil, fun _ => Iff.rfl, .nil⟩
  | cons entry names ih =>
    have hfilter : ((firstNames names).filter fun other => other.1 != entry.1).map Prod.fst =
        ((firstNames names).map Prod.fst).filter (· != entry.1) := by
      rw [List.filter_map]
      rfl
    rw [firstNames, List.map_cons, List.map_cons, hfilter]
    exact ih.cons entry.1

/-- A name has no line exactly if the scan does not give it. -/
theorem line?_ofText_eq_none_iff {file text name : String} :
    (ofText file text).line? name = none ↔ ∀ number, (name, number) ∉ names text := by
  rw [line?, ofText, lookup_firstNames, List.lookup_eq_none_iff]
  constructor
  · intro h number hmem
    exact bne_iff_ne.1 (h _ hmem) rfl
  · intro h entry hmem
    refine bne_iff_ne.2 ?_
    rintro rfl
    exact h entry.2 hmem

/-! ## Whole texts -/

/-- Of every text, the names in the index are distinct and not empty, and their lines ascend. The
line of a name is one of the text that shows a key for it, and in front of it there is one that
begins with `policies:`. The line that is found for a name is the least that the scan gives, and
there is none exactly if the scan gives none. -/
theorem positions_ofText_sound (file text : String) :
    let lines := Text.lines text.toList
    let index := ofText file text
    (index.positions.map Prod.fst).Nodup ∧ (index.positions.Pairwise fun a b => a.2 < b.2) ∧
    (∀ name number, (name, number) ∈ index.positions →
      name ≠ "" ∧ 1 ≤ number ∧ number ≤ lines.length ∧
      (∃ line key, lines[number - 1]? = some line ∧ ShowsKey key line ∧
        NameKey name.toList key) ∧
      ∃ i line, i + 1 < number ∧ lines[i]? = some line ∧ OpensBlock line) ∧
    ∀ name, (∀ number, index.line? name = some number ↔
        IsLeast {n | (name, n) ∈ names text} number) ∧
      (index.line? name = none ↔ ∀ number, (name, number) ∉ names text) := by
  intro lines index
  refine ⟨(firstPlaces_firstNames _).nodup,
    (sorted_namesFrom _ _ _).2.sublist (sublist_firstNames _), fun name number hmem => ?_,
    fun name => ⟨fun number => line?_ofText_eq_some_iff, line?_ofText_eq_none_iff⟩⟩
  have hscan : (name, number) ∈ namesFrom {} 1 lines := mem_of_mem_firstNames hmem
  obtain ⟨i, line, hnumber, hget, key, hshows, hkey⟩ := exists_line_of_mem_namesFrom hscan
  obtain rfl : number = 1 + i := hnumber
  have hlt : i < lines.length := (List.getElem?_eq_some_iff.1 hget).1
  have hname : name ≠ "" := by
    rintro rfl
    cases hkey with
    | intro hname => exact hname rfl
  have hknows : Knows [] {} := nofun
  obtain ⟨column, hblock⟩ := hknows.exists_inBlock hscan
  rw [List.nil_append] at hblock
  refine ⟨hname, by omega, by omega, ⟨line, key, ?_, hshows, hkey⟩, hblock.exists_opensBlock⟩
  rwa [Nat.add_sub_cancel_left]

/-- A text that is no YAML, and has a name behind a dash and in quotes. -/
theorem positions_brokenText_sound :
    let text := "]: é\n  policies: x\n  - name: 'ü' # ä\n\tname: y\n"
    let lines := Text.lines text.toList
    (ofText "p.yml" text).positions = [("ü", 3)] ∧ 3 ≤ lines.length ∧
    (∃ line key, lines[2]? = some line ∧ ShowsKey key line ∧ NameKey "ü".toList key) ∧
    ∃ i line, i + 1 < 3 ∧ lines[i]? = some line ∧ OpensBlock line := by
  intro text lines
  have hpositions : (ofText "p.yml" text).positions = [("ü", 3)] := by
    decide +kernel
  have hmem : ("ü", 3) ∈ (ofText "p.yml" text).positions := by
    rw [hpositions]
    exact List.mem_singleton_self _
  obtain ⟨-, -, hsound, -⟩ := positions_ofText_sound "p.yml" text
  obtain ⟨-, -, hle, hkey, hopens⟩ := hsound "ü" 3 hmem
  exact ⟨hpositions, hle, hkey, hopens⟩

end PolicyLint.LineIndex
