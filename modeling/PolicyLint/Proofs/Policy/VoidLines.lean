import PolicyLint.Proofs.Lines
import PolicyLint.Proofs.Policy.BlockLayout

/-!
# Lines that say nothing

A blank line or a comment may be put into a text at any place between its lines
(`InsertsLine`), with either end of a line behind it. Behind a last line that is not ended it
takes an end of that line as well; of a carriage return that is lost there, no name knows
(`snd_line_append`).

Such a line leaves the state of a scan as it is, so the scan of the new text is that of the old
one with the later lines numbered on by one (`namesFrom_insert`).

Main statement : the lines of the policies are the same but for that shift, and they are the
same if every line feed gets a carriage return (`positions_ofText_insertLine`).
-/

namespace PolicyLint.LineIndex

open Text (Blank Whole isSpace lines lineEnds)

/-! ## White space at the end of a line -/

theorem after?_append {start pad : List Char} (hstart : ∀ c ∈ start, isSpace c = false)
    (hpad : Blank pad) (text : List Char) :
    after? start (text ++ pad) = (after? start text).map (· ++ pad) := by
  induction start generalizing text with
  | nil => rfl
  | cons a start ih =>
    obtain ⟨ha, hstart⟩ := List.forall_mem_cons.1 hstart
    cases text with
    | nil =>
      cases pad with
      | nil => rfl
      | cons c pad =>
        have hne : a ≠ c := by
          rintro rfl
          exact Bool.false_ne_true (ha.symm.trans (hpad a List.mem_cons_self))
        exact if_neg hne
    | cons c text =>
      rw [List.cons_append, after?, after?]
      split
      · exact ih hstart text
      · rfl

theorem trim_beforeComment_append {pad : List Char} (hpad : Blank pad) (value : List Char) :
    Text.trim (beforeComment (value ++ pad)) = Text.trim (beforeComment value) := by
  obtain ⟨hno, comment, rfl | ⟨rest, rfl⟩, hsplit⟩ := exists_eq_beforeComment_append value
  · rw [List.append_nil] at hsplit
    rw [← hsplit] at hno ⊢
    rw [beforeComment_of_not_hasComment (not_hasComment_append hno hpad), Text.trim_append hpad]
  · conv_lhs => rw [hsplit, List.append_assoc, List.append_assoc]
    rw [beforeComment_append hno (.inr (List.prefix_append [' ', '#'] (rest ++ pad)))]

theorem name?_append {pad : List Char} (hpad : Blank pad) (text : List Char) :
    name? (text ++ pad) = name? text := by
  have hkey : ∀ c ∈ "name:".toList, isSpace c = false := by
    have hall : ("name:".toList.all fun c => !isSpace c) = true := by
      decide
    exact fun c hc => by simpa using List.all_eq_true.1 hall c hc
  unfold name?
  rw [after?_append hkey hpad]
  cases after? "name:".toList text with
  | none => rfl
  | some value =>
    simp only [Option.map_some, Option.bind_eq_bind, Option.bind_some,
      trim_beforeComment_append hpad]

theorem name?_trimStart_append {pad : List Char} (hpad : Blank pad) (text : List Char) :
    name? (Text.trimStart (text ++ pad)) = name? (Text.trimStart text) := by
  by_cases h : Blank text
  · rw [Text.trimStart_eq_nil_iff.2 h, Text.trimStart_eq_nil_iff.2 (h.append hpad)]
  · rw [Text.trimStart_append_of_not_blank h, name?_append hpad]

/-- Only lines of an open list give names. -/
theorem snd_line (s : State) (text : List Char) : (LineIndex.line s text).2 =
    if isVoid (Text.trimStart text) then none
    else (closeBlock (indentation text) (Text.trimStart text) s).block.bind fun block =>
      (blockLine block (indentation text) (Text.trimStart text)
        (closeBlock (indentation text) (Text.trimStart text) s)).2 := by
  unfold LineIndex.line
  dsimp only
  split
  · rfl
  · cases (closeBlock (indentation text) (Text.trimStart text) s).block with
    | none =>
      dsimp only
      split <;> rfl
    | some block => rfl

theorem snd_blockLine_append {pad : List Char} (hpad : Blank pad) {text : List Char}
    (hne : text ≠ []) (block indent : Nat) (s : State) :
    (blockLine block indent (text ++ pad) s).2 = (blockLine block indent text s).2 := by
  obtain ⟨c, rest, rfl⟩ := List.exists_cons_of_ne_nil hne
  by_cases hc : c = '-'
  · subst hc
    rw [List.cons_append, blockLine, blockLine]
    dsimp only
    split
    · rfl
    · exact name?_trimStart_append hpad rest
  · have hdash : ∀ more, (blockLine block indent (c :: more) s).2 =
        if s.key = some indent then name? (c :: more) else none := by
      intro more
      rw [blockLine]
      rintro rest' ⟨⟩
      exact hc rfl
    rw [List.cons_append, hdash, hdash, ← List.cons_append, name?_append hpad]

/-- A dash alone gives no name, whatever white space is behind it. -/
theorem snd_blockLine_dash {rest : List Char} (hrest : Blank rest) (block indent : Nat)
    (s : State) : (blockLine block indent ('-' :: rest) s).2 = none := by
  rw [blockLine]
  dsimp only
  split
  · rfl
  · rw [Text.trimStart_eq_nil_iff.2 hrest]
    rfl

theorem isItem_append {text : List Char} (hdash : text ≠ ['-']) (hne : text ≠ [])
    (pad : List Char) : isItem (text ++ pad) = isItem text := by
  obtain ⟨c, rest, rfl⟩ := List.exists_cons_of_ne_nil hne
  cases rest with
  | nil =>
    have hc : c ≠ '-' := fun h => hdash (h ▸ rfl)
    have hnot : ∀ more, isItem (c :: more) = false := by
      intro more
      rw [Bool.eq_false_iff, ne_eq, isItem_iff, List.cons.injEq, List.cons_prefix_cons]
      rintro (⟨h, -⟩ | ⟨h, -⟩)
      · exact hc h
      · exact hc h.symm
    exact (hnot pad).trans (hnot []).symm
  | cons d rest =>
    rw [Bool.eq_iff_iff, isItem_iff, isItem_iff]
    simp

theorem isVoid_append {text : List Char} (hne : text ≠ []) (rest : List Char) :
    isVoid (text ++ rest) = isVoid text := by
  obtain ⟨c, text, rfl⟩ := List.exists_cons_of_ne_nil hne
  rfl

/-- White space at the end of a line does not change the name that the line gives. -/
theorem snd_line_append {pad : List Char} (hpad : Blank pad) (s : State) (text : List Char) :
    (LineIndex.line s (text ++ pad)).2 = (LineIndex.line s text).2 := by
  by_cases hblank : Blank text
  · rw [line_of_void (.blank hblank), line_of_void (.blank (hblank.append hpad))]
  · have hne : Text.trimStart text ≠ [] := mt Text.trimStart_eq_nil_iff.1 hblank
    have hindent : indentation (text ++ pad) = indentation text := by
      rw [indentation, Text.takeWhile_append_of_not_blank hblank, indentation]
    rw [snd_line, snd_line, hindent, Text.trimStart_append_of_not_blank hblank]
    generalize Text.trimStart text = key at hne
    rw [isVoid_append hne]
    by_cases hdash : key = ['-']
    · -- The list may be closed here in one case and not in the other; there is no name in both.
      subst hdash
      have hnone : ∀ rest, Blank rest → ∀ s' : State, (s'.block.bind fun block =>
          (blockLine block (indentation text) ('-' :: rest) s').2) = none := by
        intro rest hrest s'
        refine Option.bind_eq_none_iff.2 fun block _ => ?_
        exact snd_blockLine_dash hrest block _ s'
      rw [List.singleton_append, hnone pad hpad, hnone [] (List.forall_mem_nil _)]
    · have hclose : closeBlock (indentation text) (key ++ pad) s =
          closeBlock (indentation text) key s := by
        unfold closeBlock
        rw [isItem_append hdash hne]
      rw [hclose]
      simp only [snd_blockLine_append hpad hne]

theorem blank_return : Blank ['\r'] :=
  List.forall_mem_singleton.2 rfl

/-- A line that says nothing does not say more where it is cut. -/
theorem VoidLine.of_append {line rest : List Char} (h : VoidLine (line ++ rest)) :
    VoidLine line := by
  by_cases hblank : Blank line
  · exact .blank hblank
  · have hne : Text.trimStart line ≠ [] := mt Text.trimStart_eq_nil_iff.1 hblank
    rw [← isVoid_iff, Text.trimStart_append_of_not_blank hblank, isVoid_append hne] at h
    exact isVoid_iff.1 h

/-! ## Lines with other numbers -/

/-- An entry of an index, if one line is put in behind the first `n` of a text. -/
def shift (n : Nat) (entry : String × Nat) : String × Nat :=
  (entry.1, if entry.2 ≤ n then entry.2 else entry.2 + 1)

theorem namesFrom_succ (s : State) (number : Nat) (lines : List (List Char)) :
    namesFrom s (number + 1) lines =
      (namesFrom s number lines).map fun entry => (entry.1, entry.2 + 1) := by
  induction lines generalizing s number with
  | nil => rfl
  | cons text lines ih =>
    obtain ⟨⟨s', name⟩, hline⟩ : ∃ result, line s text = result := ⟨_, rfl⟩
    rw [namesFrom_cons hline, namesFrom_cons hline, ih, List.map_append]
    cases name <;> rfl

/-- A line that says nothing numbers the lines behind it on. -/
theorem namesFrom_insert {void : List Char} (hvoid : VoidLine void) (s : State) (number : Nat)
    (before after : List (List Char)) :
    namesFrom s (number + 1) (before ++ void :: after) =
      (namesFrom s (number + 1) (before ++ after)).map (shift (number + before.length)) := by
  -- Both scans are in the same state at every line, in front of the new one and behind it.
  induction before generalizing s number with
  | nil =>
    rw [List.nil_append, namesFrom_cons (line_of_void hvoid s), namesFrom_succ]
    refine List.map_congr_left fun entry hentry => ?_
    have hle : number + 1 ≤ entry.2 := (sorted_namesFrom s (number + 1) after).1 entry hentry
    have hbehind : ¬entry.2 ≤ number + ([] : List (List Char)).length := by
      rw [List.length_nil]
      omega
    rw [shift, if_neg hbehind]
  | cons text before ih =>
    obtain ⟨⟨s', name⟩, hline⟩ : ∃ result, line s text = result := ⟨_, rfl⟩
    have hlength : number + 1 + before.length = number + (text :: before).length := by
      rw [List.length_cons]
      omega
    rw [List.cons_append, List.cons_append, namesFrom_cons hline, namesFrom_cons hline, ih,
      List.map_append, hlength]
    congr 1
    cases name with
    | none => rfl
    | some name =>
      have hfirst : number + 1 ≤ number + (text :: before).length := by
        rw [List.length_cons]
        omega
      simp only [Option.map_some, Option.toList_some, List.map_cons, List.map_nil, shift,
        if_pos hfirst]

/-- What the last line says to lines behind it does not matter. -/
theorem namesFrom_concat_congr {last last' : List Char}
    (h : ∀ s, (LineIndex.line s last).2 = (LineIndex.line s last').2) (s : State) (number : Nat)
    (before : List (List Char)) :
    namesFrom s number (before ++ [last]) = namesFrom s number (before ++ [last']) := by
  induction before generalizing s number with
  | nil =>
    obtain ⟨⟨s₁, name⟩, hline⟩ : ∃ result, line s last = result := ⟨_, rfl⟩
    obtain ⟨⟨s₂, name'⟩, hline'⟩ : ∃ result, line s last' = result := ⟨_, rfl⟩
    have hname : name = name' := by simpa [hline, hline'] using h s
    rw [List.nil_append, List.nil_append, namesFrom_cons hline, namesFrom_cons hline', hname]
    rfl
  | cons text before ih =>
    obtain ⟨⟨s', name⟩, hline⟩ : ∃ result, line s text = result := ⟨_, rfl⟩
    rw [List.cons_append, List.cons_append, namesFrom_cons hline, namesFrom_cons hline, ih]

/-- Names count where they stand first, whatever their numbers are. -/
theorem firstNames_map {f : String × Nat → String × Nat} (hf : ∀ entry, (f entry).1 = entry.1)
    (names : List (String × Nat)) : firstNames (names.map f) = (firstNames names).map f := by
  induction names with
  | nil => rfl
  | cons entry names ih =>
    rw [List.map_cons, firstNames, firstNames, ih, List.map_cons, List.filter_map]
    congr 2
    refine List.filter_congr fun other _ => ?_
    simp only [Function.comp_apply, hf]

/-! ## Texts with a line put in -/

/-- What may stand behind a line that is put in, with a text `after` it : the end of a line, or
nothing if no text follows and the line is not empty. -/
inductive Ends (line : List Char) : List Char → List Char → Prop
  | ended {ending : List Char} (hending : ending ∈ lineEnds) (after : List Char) :
    Ends line ending after
  | final (hline : line ≠ []) : Ends line [] []

/-- A text with a line put in behind its first `n` lines. -/
inductive InsertsLine (line : List Char) : Nat → List Char → List Char → Prop
  | between {before ending after : List Char} (hbefore : Whole before)
    (hends : Ends line ending after) :
    InsertsLine line (lines before).length (before ++ after)
      (before ++ (line ++ ending ++ after))
  | behind {text lineEnd ending : List Char} (htext : ¬Whole text) (hend : lineEnd ∈ lineEnds)
    (hends : Ends line ending []) :
    InsertsLine line (lines text).length text (text ++ lineEnd ++ (line ++ ending ++ []))

/-- There is a way to put a line in at any place. -/
theorem exists_insertsLine (line : List Char) {text : List Char} {n : Nat}
    (hn : n ≤ (lines text).length) : ∃ text', InsertsLine line n text text' := by
  have hbreak : ['\n'] ∈ lineEnds := List.mem_cons_self
  rcases Nat.lt_or_eq_of_le hn with hlt | rfl
  · obtain ⟨before, after, rfl, hbefore, rfl⟩ := Text.exists_eq_append_of_lt hlt
    exact ⟨_, .between hbefore (.ended hbreak after)⟩
  · by_cases htext : Whole text
    · have hinserts : InsertsLine line (lines text).length (text ++ [])
          (text ++ (line ++ ['\n'] ++ [])) := .between htext (.ended hbreak [])
      rw [List.append_nil text] at hinserts
      exact ⟨_, hinserts⟩
    · exact ⟨_, .behind htext hbreak (.ended hbreak [])⟩

/-- A line that says nothing is one line of the new text, and says nothing there. -/
theorem Ends.exists_lines_eq {line ending after : List Char} (h : Ends line ending after)
    (hvoid : VoidLine line) (hline : '\n' ∉ line) :
    ∃ void, VoidLine void ∧ lines (line ++ ending ++ after) = void :: lines after := by
  cases h with
  | ended hending =>
    obtain ⟨line', hlines, hreturn⟩ := Text.exists_lines_append_end hline hending
    refine ⟨line', ?_, ?_⟩
    · obtain rfl | rfl := hreturn
      · exact hvoid
      · exact hvoid.of_append
    · rw [Text.lines_append (Text.whole_append_of_mem_lineEnds hending line), hlines]
      rfl
  | final hne =>
    refine ⟨line, hvoid, ?_⟩
    rw [List.append_nil, List.append_nil, Text.lines_of_not_mem hline, if_neg hne]
    rfl

theorem InsertsLine.namesFrom_eq {line text text' : List Char} {n : Nat}
    (h : InsertsLine line n text text') (hvoid : VoidLine line) (hline : '\n' ∉ line) :
    namesFrom {} 1 (lines text') = (namesFrom {} 1 (lines text)).map (shift n) := by
  cases h with
  | between hbefore hends =>
    obtain ⟨void, hvoid, hlines⟩ := hends.exists_lines_eq hvoid hline
    rw [Text.lines_append hbefore, Text.lines_append hbefore, hlines, namesFrom_insert hvoid,
      Nat.zero_add]
  | @behind _ lineEnd ending htext hend hends =>
    obtain ⟨void, hvoid, hlines⟩ := hends.exists_lines_eq hvoid hline
    -- The last line of the old text gets an end, by which it may lose a carriage return.
    obtain ⟨before, last, rfl, hbefore, hlast⟩ := Text.exists_eq_whole_append text
    have hne : last ≠ [] := by
      rintro rfl
      rw [List.append_nil] at htext
      exact htext hbefore
    obtain ⟨last', hlast', hreturn⟩ := Text.exists_lines_append_end hlast hend
    have hname : ∀ s, (LineIndex.line s last').2 = (LineIndex.line s last).2 := by
      intro s
      obtain rfl | rfl := hreturn
      · rfl
      · exact (snd_line_append blank_return s last').symm
    have hold : lines (before ++ last) = lines before ++ [last] := by
      rw [Text.lines_append hbefore, Text.lines_of_not_mem hlast, if_neg hne]
    have hnew : lines (before ++ last ++ lineEnd ++ (line ++ ending ++ [])) =
        lines before ++ [last'] ++ void :: [] := by
      rw [Text.lines_append (Text.whole_append_of_mem_lineEnds hend _), List.append_assoc before,
        Text.lines_append hbefore, hlast', hlines]
      rfl
    rw [hnew, hold, namesFrom_insert hvoid, List.append_nil, namesFrom_concat_congr hname,
      Nat.zero_add, List.length_append, List.length_append]
    rfl

/-- A blank line or a comment can be put in at any place of a text, and leaves the names in the
index as they are; the lines behind it are numbered on by one. The index is the same if every
line feed gets a carriage return. -/
theorem positions_ofText_insertLine (file text : String) :
    (∀ line, VoidLine line → '\n' ∉ line → ∀ n ≤ (lines text.toList).length,
      (∃ text', InsertsLine line n text.toList text') ∧
      ∀ text', InsertsLine line n text.toList text' →
        (ofText file (String.ofList text')).positions =
          (ofText file text).positions.map (shift n)) ∧
    ('\r' ∉ text.toList →
      (ofText file (String.ofList (Text.withReturns text.toList))).positions =
        (ofText file text).positions) := by
  refine ⟨fun line hvoid hline n hn => ⟨exists_insertsLine line hn, fun text' h => ?_⟩,
    fun hreturn => ?_⟩
  · rw [ofText, ofText, names, names, String.toList_ofList, h.namesFrom_eq hvoid hline]
    have hshift : ∀ entry, (shift n entry).1 = entry.1 := fun _ => rfl
    exact firstNames_map hshift _
  · rw [ofText, ofText, names, names, String.toList_ofList, Text.lines_withReturns hreturn]

/-- A comment between two policies, and carriage returns in front of the line feeds. -/
theorem positions_insertLine_sample :
    let text := "policies:\n- name: a\n- name: b"
    let longer := "policies:\n- name: a\n# c\n- name: b"
    InsertsLine "# c".toList 2 text.toList longer.toList ∧
    (ofText "p.yml" text).positions = [("a", 2), ("b", 3)] ∧
    (ofText "p.yml" longer).positions = [("a", 2), ("b", 4)] ∧
    '\r' ∉ text.toList ∧
    (ofText "p.yml" (String.ofList (Text.withReturns text.toList))).positions =
      [("a", 2), ("b", 3)] := by
  intro text longer
  have hold : (ofText "p.yml" text).positions = [("a", 2), ("b", 3)] := by
    decide +kernel
  let before := "policies:\n- name: a\n".toList
  let after := "- name: b".toList
  have htext : text.toList = before ++ after := by
    decide +kernel
  have hlonger : longer.toList = before ++ ("# c".toList ++ ['\n'] ++ after) := by
    decide +kernel
  have hplace : (lines before).length = 2 := by
    decide +kernel
  have hinserts : InsertsLine "# c".toList 2 text.toList longer.toList := by
    have hbefore : Whole before := .inr (by decide +kernel)
    rw [htext, hlonger, ← hplace]
    exact .between hbefore (.ended List.mem_cons_self after)
  have hreturn : '\r' ∉ text.toList := by
    decide +kernel
  have hvoid : VoidLine "# c".toList := isVoid_iff.1 (by decide +kernel)
  obtain ⟨hinsert, hreturns⟩ := positions_ofText_insertLine "p.yml" text
  have hnew := (hinsert _ hvoid (by decide +kernel) 2 (by decide +kernel)).2 longer.toList hinserts
  rw [String.ofList_toList, hold] at hnew
  exact ⟨hinserts, hold, hnew, hreturn, (hreturns hreturn).trans hold⟩

end PolicyLint.LineIndex
