import PolicyLint.Proofs.Policy.BlockLayout

/-!
# The lists that names are found in

A list of policies opens at a line that begins with `policies:`, in any column, and goes on up
to the next line that says something and is indented less, or as much without being an item
(`ClosesBlock`). `InBlock column lines number` says that the line with a number stands in a list
that is opened in `column`.

Main statement : every name of an index stands in such a list, and in one of the first column if
lines that begin with `policies:` in another column stand in one of those
(`inBlock_of_mem_positions`). Without that, a list under the key of another mapping counts too,
and hides the line of a policy (`exists_nested_hides`).
-/

namespace PolicyLint.LineIndex

/-! ## Lists of policies in lines -/

/-- Whether a line ends a list of policies that is opened in a column. -/
structure ClosesBlock (column : Nat) (line : List Char) : Prop where
  not_void : ¬VoidLine line
  outside : indentation line < column ∨ indentation line = column ∧
    Text.trimStart line ≠ ['-'] ∧ ¬['-', ' '] <+: Text.trimStart line

/-- At the end of the lines, a list of policies that is opened in a column goes on. -/
def OpenAfter (column : Nat) (lines : List (List Char)) : Prop :=
  ∃ before opener body, lines = before ++ opener :: body ∧ OpensBlock opener ∧
    indentation opener = column ∧ ∀ line ∈ body, ¬ClosesBlock column line

/-- The line with a number stands in a list of policies that is opened in a column. Lines
count from 1. -/
def InBlock (column : Nat) (lines : List (List Char)) (number : Nat) : Prop :=
  ∃ i, number = i + 1 ∧ OpenAfter column (lines.take i) ∧
    ∃ line, lines[i]? = some line ∧ ¬ClosesBlock column line

/-- Lines that begin with `policies:` in another column than the first stand in a list of
policies that is opened there. -/
def OpensAtTop (lines : List (List Char)) : Prop :=
  ∀ (i : Nat) (line : List Char), lines[i]? = some line → OpensBlock line →
    indentation line = 0 ∨ InBlock 0 lines (i + 1)

variable {column : Nat} {lines : List (List Char)}

theorem OpenAfter.append (h : OpenAfter column lines) {more : List (List Char)}
    (hmore : ∀ line ∈ more, ¬ClosesBlock column line) : OpenAfter column (lines ++ more) := by
  obtain ⟨before, opener, body, rfl, hopens, hcolumn, hbody⟩ := h
  refine ⟨before, opener, body ++ more, by simp, hopens, hcolumn, fun line hmem => ?_⟩
  rcases List.mem_append.1 hmem with hmem | hmem
  · exact hbody line hmem
  · exact hmore line hmem

theorem OpenAfter.concat (h : OpenAfter column lines) {line : List Char}
    (hline : ¬ClosesBlock column line) : OpenAfter column (lines ++ [line]) :=
  h.append fun _ hmem => List.mem_singleton.1 hmem ▸ hline

theorem OpensBlock.openAfter_concat {line : List Char} (h : OpensBlock line)
    (lines : List (List Char)) : OpenAfter (indentation line) (lines ++ [line]) :=
  ⟨lines, line, [], rfl, h, rfl, nofun⟩

/-- What ends a list in the first column ends every list. -/
theorem ClosesBlock.of_top {line : List Char} (h : ClosesBlock 0 line) (hcolumn : column ≠ 0) :
    ClosesBlock column line where
  not_void := h.not_void
  outside := by
    rcases h.outside with hlt | ⟨hindent, -⟩
    · exact absurd hlt (Nat.not_lt_zero _)
    · exact .inl (hindent ▸ Nat.pos_of_ne_zero hcolumn)

/-- An item of the first lines is that of all lines. -/
theorem getElem?_of_take_eq {i : Nat} {before after : List (List Char)} {line : List Char}
    (h : lines.take i = before ++ line :: after) :
    before.length < i ∧ lines[before.length]? = some line := by
  have hlt : before.length < i := by
    have hlength := congrArg List.length h
    simp only [List.length_take, List.length_append, List.length_cons] at hlength
    omega
  refine ⟨hlt, ?_⟩
  rw [← List.getElem?_take_of_lt hlt, h]
  simp

theorem not_closesBlock_of_lt {line : List Char} (h : column < indentation line) :
    ¬ClosesBlock column line := by
  intro hclose
  rcases hclose.outside with hlt | ⟨heq, -⟩
  · exact Nat.lt_asymm h hlt
  · exact Nat.ne_of_gt h heq

/-- A list of policies that is opened within one of the first column does not outlive it. -/
theorem InBlock.top {number : Nat} (h : InBlock column lines number)
    (hopens : OpensAtTop lines) : InBlock 0 lines number := by
  by_cases hcolumn : column = 0
  · exact hcolumn ▸ h
  obtain ⟨i, rfl, ⟨before, opener, body, htake, hopener, hindent, hbody⟩, line, hget, hline⟩ := h
  have hgetOpener : lines[before.length]? = some opener := (getElem?_of_take_eq htake).2
  have htakeBefore : lines.take before.length = before := by
    have hprefix : before <+: lines :=
      (List.prefix_append before (opener :: body)).trans (htake ▸ List.take_prefix i lines)
    exact (List.prefix_iff_eq_take.1 hprefix).symm
  obtain ⟨j, hj, htop, opener', hgetOpener', hstays⟩ :=
    (hopens _ _ hgetOpener hopener).resolve_left (hindent ▸ hcolumn)
  obtain rfl : j = before.length := by omega
  obtain rfl : opener = opener' := Option.some.inj (hgetOpener.symm.trans hgetOpener')
  refine ⟨i, rfl, ?_, line, hget, fun hclose => hline (hclose.of_top hcolumn)⟩
  rw [htake]
  refine (htakeBefore ▸ htop).append fun line' hmem => ?_
  rcases List.mem_cons.1 hmem with rfl | hmem
  · exact hstays
  · exact fun hclose => hbody line' hmem (hclose.of_top hcolumn)

/-- In front of a line of a list, there is one that begins with `policies:`. -/
theorem InBlock.exists_opensBlock {number : Nat} (h : InBlock column lines number) :
    ∃ i line, i + 1 < number ∧ lines[i]? = some line ∧ OpensBlock line := by
  obtain ⟨n, rfl, ⟨before, opener, body, htake, hopens, -, -⟩, -⟩ := h
  obtain ⟨hlt, hget⟩ := getElem?_of_take_eq htake
  exact ⟨before.length, opener, Nat.succ_lt_succ hlt, hget, hopens⟩

/-! ## What a line does to the open list -/

/-- A line that says something closes the open list exactly if it ends it. -/
theorem closeBlock_eq {line : List Char} (hvoid : ¬VoidLine line) {s : State} {block : Nat}
    (hs : s.block = some block) [Decidable (ClosesBlock block line)] :
    closeBlock (indentation line) (Text.trimStart line) s =
      if ClosesBlock block line then { s with block := none } else s := by
  have hiff : (decide (indentation line < block) || (indentation line == block &&
      !isItem (Text.trimStart line))) = true ↔ ClosesBlock block line := by
    rw [Bool.or_eq_true, Bool.and_eq_true, decide_eq_true_eq, beq_iff_eq, Bool.not_eq_true',
      ← Bool.not_eq_true, isItem_iff, not_or]
    exact ⟨fun h => ⟨hvoid, h⟩, fun h => h.outside⟩
  rw [closeBlock, hs]
  simp only [hiff]

theorem block_blockLine (block indent : Nat) (text : List Char) (s : State) :
    (blockLine block indent text s).1.block = s.block := by
  unfold blockLine
  split
  · dsimp only
    split <;> rfl
  · rfl

/-- The open list stays open through a line that does not end it. -/
theorem block_line_of_not_closesBlock {line : List Char} {s : State} {block : Nat}
    (hs : s.block = some block) (h : ¬ClosesBlock block line) :
    (LineIndex.line s line).1.block = some block := by
  classical
  by_cases hvoid : VoidLine line
  · rw [line_of_void hvoid, hs]
  · rw [LineIndex.line, if_neg (mt isVoid_iff.1 hvoid)]
    dsimp only
    rw [closeBlock_eq hvoid hs, if_neg h, hs]
    dsimp only
    rw [block_blockLine, hs]

theorem VoidLine.not_opensBlock {line : List Char} (h : VoidLine line) : ¬OpensBlock line := by
  rintro ⟨rest, hrest⟩
  have hvoid := isVoid_iff.2 h
  rw [← hrest] at hvoid
  cases hvoid

/-- If no list goes on, a line gives no name, and opens a list if it begins with `policies:`. -/
theorem line_of_closesBlock {line : List Char} {s : State}
    (h : ∀ block, s.block = some block → ClosesBlock block line) :
    (LineIndex.line s line).2 = none ∧ (LineIndex.line s line).1.block =
      if OpensBlock line then some (indentation line) else none := by
  classical
  by_cases hvoid : VoidLine line
  · have hs : s.block = none :=
      Option.eq_none_iff_forall_ne_some.2 fun block hblock => (h block hblock).not_void hvoid
    rw [line_of_void hvoid, if_neg hvoid.not_opensBlock]
    exact ⟨rfl, hs⟩
  · have hclose : (closeBlock (indentation line) (Text.trimStart line) s).block = none := by
      cases hs : s.block with
      | none => rw [closeBlock, hs, hs]
      | some block => rw [closeBlock_eq hvoid hs, if_pos (h block hs)]
    rw [LineIndex.line, if_neg (mt isVoid_iff.1 hvoid)]
    dsimp only
    rw [hclose]
    dsimp only
    by_cases hopens : OpensBlock line
    · rw [if_pos (isSome_after?_iff.2 hopens), if_pos hopens]
      exact ⟨rfl, rfl⟩
    · rw [if_neg (mt isSome_after?_iff.1 hopens), if_neg hopens]
      exact ⟨rfl, hclose⟩

/-! ## Whole texts -/

/-- If the state knows of an open list, there is one. -/
def Knows (lines : List (List Char)) (s : State) : Prop :=
  ∀ block, s.block = some block → OpenAfter block lines

theorem Knows.line {s : State} (h : Knows lines s) (line : List Char) :
    Knows (lines ++ [line]) (LineIndex.line s line).1 := by
  intro block hblock
  by_cases hopen : ∃ block, s.block = some block ∧ ¬ClosesBlock block line
  · obtain ⟨block', hs, hstays⟩ := hopen
    rw [block_line_of_not_closesBlock hs hstays] at hblock
    obtain rfl := Option.some.inj hblock
    exact (h _ hs).concat hstays
  · push Not at hopen
    rw [(line_of_closesBlock hopen).2] at hblock
    split at hblock
    · rename_i hopens
      obtain rfl := Option.some.inj hblock
      exact hopens.openAfter_concat lines
    · cases hblock

/-- A line that gives a name stands in the open list. -/
theorem Knows.exists_openAfter {s : State} (h : Knows lines s) {line name : List Char}
    (hname : (LineIndex.line s line).2 = some name) :
    ∃ column, OpenAfter column lines ∧ ¬ClosesBlock column line := by
  by_contra hnone
  push Not at hnone
  rw [(line_of_closesBlock fun block hs => hnone block (h block hs)).1] at hname
  cases hname

/-- The names of the lines behind `lines` stand in lists of policies. -/
theorem Knows.exists_inBlock {s : State} (h : Knows lines s) {later : List (List Char)}
    {entry : String × Nat} (hentry : entry ∈ namesFrom s (lines.length + 1) later) :
    ∃ column, InBlock column (lines ++ later) entry.2 := by
  induction later generalizing lines s with
  | nil => cases hentry
  | cons line later ih =>
    obtain ⟨⟨s', name⟩, hline⟩ : ∃ result, LineIndex.line s line = result := ⟨_, rfl⟩
    rw [namesFrom_cons hline, List.mem_append] at hentry
    rcases hentry with hfirst | hlater
    · obtain ⟨name', rfl, rfl⟩ := Option.map_eq_some_iff.1 (Option.mem_toList.1 hfirst)
      have hname : (LineIndex.line s line).2 = some name' := by rw [hline]
      obtain ⟨column, hopen, hstays⟩ := h.exists_openAfter hname
      exact ⟨column, lines.length, rfl, by rwa [List.take_left], line, by simp, hstays⟩
    · have hknows : Knows (lines ++ [line]) s' := by
        have := h.line line
        rwa [hline] at this
      have hlater' := ih hknows (by simpa using hlater)
      rwa [List.append_assoc] at hlater'

/-- Every name of an index stands in a list of policies, which is one of the first column if no
other lists are opened outside of those. -/
theorem inBlock_of_mem_positions (file text : String) :
    (∀ entry ∈ (ofText file text).positions,
      ∃ column, InBlock column (Text.lines text.toList) entry.2) ∧
    (OpensAtTop (Text.lines text.toList) → ∀ entry ∈ (ofText file text).positions,
      InBlock 0 (Text.lines text.toList) entry.2) := by
  have hall : ∀ entry ∈ (ofText file text).positions,
      ∃ column, InBlock column (Text.lines text.toList) entry.2 := by
    intro entry hentry
    have hstart : Knows [] {} := nofun
    exact hstart.exists_inBlock (mem_of_mem_firstNames hentry)
  refine ⟨hall, fun hopens entry hentry => ?_⟩
  obtain ⟨column, hblock⟩ := hall entry hentry
  exact hblock.top hopens

/-- A list of policies in which a policy has a list of that name, too. -/
def innerText : String :=
  "policies:\n  - name: a\n    policies:\n      - name: c\n  - name: b\n"

theorem inBlock_innerText : OpensAtTop (Text.lines innerText.toList) ∧
    InBlock 0 (Text.lines innerText.toList) 5 := by
  have hlines : Text.lines innerText.toList = ["policies:".toList, "  - name: a".toList,
      "    policies:".toList, "      - name: c".toList, "  - name: b".toList] := by
    decide +kernel
  have hinner : InBlock 0 (Text.lines innerText.toList) 3 := by
    rw [hlines]
    have hopen : OpenAfter 0 ["policies:".toList, "  - name: a".toList] :=
      (OpensBlock.openAfter_concat (by decide) []).concat (not_closesBlock_of_lt (by decide))
    exact ⟨2, rfl, hopen, "    policies:".toList, rfl, not_closesBlock_of_lt (by decide)⟩
  have hopens : OpensAtTop (Text.lines innerText.toList) := by
    have honly : ∀ line ∈ ["  - name: a".toList, "      - name: c".toList,
        "  - name: b".toList], ¬OpensBlock line := by
      decide
    intro i line hline hopens
    rw [hlines] at hline
    match i with
    | 0 => exact .inl (Option.some.inj hline ▸ by decide)
    | 1 => exact absurd (Option.some.inj hline ▸ hopens) (honly _ (by simp))
    | 2 => exact .inr hinner
    | 3 => exact absurd (Option.some.inj hline ▸ hopens) (honly _ (by simp))
    | 4 => exact absurd (Option.some.inj hline ▸ hopens) (honly _ (by simp))
    | i + 5 => cases hline
  exact ⟨hopens, (inBlock_of_mem_positions "p.yml" innerText).2 hopens ("b", 5)
    (by decide +kernel)⟩

/-- A list under the key of another mapping, and the list of policies behind it. -/
def nestedText : String :=
  "vars:\n  policies:\n    - name: b\npolicies:\n  - name: b\n"

/-- The list under the key of another mapping counts, and hides the line of the policy. -/
theorem exists_nested_hides :
    (Text.lines nestedText.toList).head? = some "vars:".toList ∧
      ("b", 3) ∈ (ofText "p.yml" nestedText).positions ∧
      ¬InBlock 0 (Text.lines nestedText.toList) 3 ∧
      (ofText "p.yml" nestedText).line? "b" = some 3 := by
  refine ⟨by decide +kernel, by decide +kernel, ?_, by decide +kernel⟩
  have hnone : ∀ line ∈ (Text.lines nestedText.toList).take 2,
      ¬(OpensBlock line ∧ indentation line = 0) := by
    decide +kernel
  rintro ⟨i, hi, ⟨before, opener, body, htake, hopens, hindent, -⟩, -⟩
  obtain rfl : i = 2 := by omega
  exact hnone opener (htake ▸ List.mem_append_right _ List.mem_cons_self) ⟨hopens, hindent⟩

end PolicyLint.LineIndex
