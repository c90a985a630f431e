import PolicyLint.Proofs.Policy.LineScan

/-!
# Policies in block layout

A `BlockLayout` is a text as policies are commonly written : a line `policies:` in the first
column, and behind it items whose dashes stand in one column. The key text behind the dash of an
item sets the column of its keys, and all other lines of the item are indented as far at least.
There may be any lines in front of the list and behind it, as long as no other list of policies
begins in them, and blank lines and comments anywhere.

Main statement : the line of a policy is the first one with a key for its name among the key
texts of the items (`BlockLayout.line?_ofText_iff_isLeast`). Keys at any other place count for
nothing. Any key counts that gives the name, and not only those that are written in a common way
(`BlockLayout.line?_looseText`).
-/

namespace PolicyLint.LineIndex

open Text (Blank StartsBare isSpace)

/-! ## Layouts -/

/-- Spaces in front of a text. -/
def indent (k : Nat) (text : List Char) : List Char :=
  List.replicate k ' ' ++ text

/-- The text of a line that says something, without the white space in front of it. -/
structure LineText where
  chars : List Char
  eq_cons : ∃ c rest, chars = c :: rest ∧ isSpace c = false ∧ c ≠ '#'

/-- The lines that say nothing : blank lines and comments. -/
inductive VoidLine : List Char → Prop
  | blank {line : List Char} (hline : Blank line) : VoidLine line
  | comment {pad : List Char} (hpad : Blank pad) (text : List Char) : VoidLine (pad ++ '#' :: text)

/-- Whether a line begins a list of policies, in any column. -/
def OpensBlock (line : List Char) : Prop :=
  "policies:".toList <+: Text.trimStart line

instance : DecidablePred OpensBlock :=
  fun _ => inferInstanceAs (Decidable (_ <+: _))

/-- A line of an item behind its first one. A text is indented by `depth` more than the keys
of the item are. -/
inductive BodyLine
  | void (line : List Char) (hline : VoidLine line)
  | text (depth : Nat) (key : LineText)

/-- An item : the number of spaces behind its dash, of which there is one at least, the key
text behind them, and the lines below. -/
structure LayoutItem where
  moreSpaces : Nat := 0
  key : LineText
  body : List BodyLine := []

/-- A text with a list of policies in block layout. -/
structure BlockLayout where
  /-- The lines in front of the list. -/
  before : List (List Char) := []
  before_closed : ∀ line ∈ before, ¬OpensBlock line
  /-- What stands in the line `policies:` behind the colon. -/
  heading : List Char := []
  /-- The blank lines and comments in front of the first item. -/
  gap : List (List Char) := []
  gap_void : ∀ line ∈ gap, VoidLine line
  /-- The column of the dashes. -/
  column : Nat
  items : List LayoutItem
  /-- The lines behind the list. -/
  after : List (List Char) := []
  after_closed : ∀ line ∈ after, ¬OpensBlock line
  /-- The first line behind the list stands in the first column and is no item. -/
  after_outside : ∀ line ∈ after.head?, ∃ text : LineText,
    line = text.chars ∧ line ≠ ['-'] ∧ ¬['-', ' '] <+: line

namespace BodyLine

/-- A line of an item whose keys stand in a column. Its text is a key text if it stands in
that column too. -/
def row (column : Nat) : BodyLine → Row
  | void line _ => ⟨line, none⟩
  | text depth key =>
    ⟨indent (column + depth) key.chars, if depth = 0 then some key.chars else none⟩

end BodyLine

namespace LayoutItem

variable (column : Nat) (item : LayoutItem)

/-- The column of the keys of an item whose dash stands in `column`. -/
def keyColumn : Nat :=
  column + 2 + item.moreSpaces

/-- The lines of an item whose dash stands in `column`. -/
def rows : List Row :=
  ⟨indent column ('-' :: indent (item.moreSpaces + 1) item.key.chars), some item.key.chars⟩ ::
    item.body.map (BodyLine.row (item.keyColumn column))

end LayoutItem

namespace BlockLayout

/-- A list of policies with nothing in front of it and nothing behind it. -/
def ofItems (column : Nat) (items : List LayoutItem) : BlockLayout where
  before_closed := List.forall_mem_nil _
  gap_void := List.forall_mem_nil _
  column := column
  items := items
  after_closed := List.forall_mem_nil _
  after_outside := by simp

variable (layout : BlockLayout)

/-- The lines of a layout, with the key texts of its items. -/
def rows : List Row :=
  layout.before.map (fun line => ⟨line, none⟩) ++
    (⟨"policies:".toList ++ layout.heading, none⟩ ::
      (layout.gap.map (fun line => ⟨line, none⟩) ++
        (layout.items.flatMap (LayoutItem.rows layout.column) ++
          layout.after.map fun line => ⟨line, none⟩)))

/-- The lines of a layout. -/
def lines : List (List Char) :=
  layout.rows.map Row.line

end BlockLayout

/-! ## Single lines -/

theorem LineText.startsBare (text : LineText) : StartsBare text.chars := by
  obtain ⟨c, rest, hchars, hspace, -⟩ := text.eq_cons
  intro d hd
  rw [hchars] at hd
  exact Option.some.inj hd ▸ hspace

theorem LineText.not_void (text : LineText) : isVoid text.chars = false := by
  obtain ⟨c, rest, hchars, -, hc⟩ := text.eq_cons
  rw [hchars]
  simpa [isVoid] using hc

theorem trimStart_indent (k : Nat) {text : List Char} (htext : StartsBare text) :
    Text.trimStart (indent k text) = text := by
  rw [indent, Text.trimStart_append (Text.blank_replicate k), Text.trimStart_of_startsBare htext]

theorem indentation_indent (k : Nat) {text : List Char} (htext : StartsBare text) :
    indentation (indent k text) = k := by
  rw [indentation, indent, Text.takeWhile_append_of_startsBare (Text.blank_replicate k) htext,
    Text.byteLength_replicate]
  exact Nat.mul_one k

theorem isVoid_iff {line : List Char} : isVoid (Text.trimStart line) = true ↔ VoidLine line := by
  constructor
  · intro h
    cases htrim : Text.trimStart line with
    | nil => exact .blank (Text.trimStart_eq_nil_iff.1 htrim)
    | cons c text =>
      rw [htrim] at h
      obtain rfl : c = '#' := by simpa [isVoid] using h
      rw [← Text.takeWhile_append_trimStart line, htrim]
      exact .comment (Text.blank_takeWhile line) text
  · rintro (hline | ⟨hpad, text⟩)
    · rw [Text.trimStart_eq_nil_iff.2 hline]
      rfl
    · rw [Text.trimStart_append hpad, Text.trimStart_of_startsBare]
      · rfl
      · intro c hc
        obtain rfl : '#' = c := Option.some.inj hc
        decide

theorem isItem_iff {text : List Char} :
    isItem text = true ↔ text = ['-'] ∨ ['-', ' '] <+: text := by
  constructor
  · intro h
    unfold isItem at h
    split at h
    · exact .inl rfl
    · exact .inr (List.prefix_append ['-', ' '] _)
    · cases h
  · rintro (rfl | ⟨rest, rfl⟩) <;> rfl

theorem line_of_void {line : List Char} (h : VoidLine line) (s : State) :
    LineIndex.line s line = (s, none) := by
  rw [LineIndex.line, if_pos (isVoid_iff.2 h)]

theorem isSome_after?_iff {line : List Char} :
    (after? "policies:".toList (Text.trimStart line)).isSome = true ↔ OpensBlock line := by
  rw [Option.isSome_iff_exists]
  exact exists_congr fun rest => after?_eq_some_iff.trans eq_comm

/-- Outside of a list of policies, only a line that begins one counts. -/
theorem line_of_closed {line : List Char} (h : ¬OpensBlock line) {s : State}
    (hs : s.block = none) : LineIndex.line s line = (s, none) := by
  have hopens := Bool.eq_false_iff.2 (mt isSome_after?_iff.1 h)
  have hclose : closeBlock (indentation line) (Text.trimStart line) s = s := by
    rw [closeBlock, hs]
  rw [LineIndex.line]
  split
  · rfl
  · dsimp only
    rw [hclose, hs, hopens]
    rfl

/-- The line `policies:` in the first column opens a list of policies. -/
theorem line_heading (heading : List Char) :
    LineIndex.line {} ("policies:".toList ++ heading) = ({ block := some 0 }, none) := by
  rfl

/-- A line of the list is read as one of its block. -/
theorem line_of_block {k : Nat} (text : LineText) {s : State} (hs : s.block = some 0)
    (hk : 0 < k ∨ isItem text.chars = true) :
    LineIndex.line s (indent k text.chars) = blockLine 0 k text.chars s := by
  have hclose : closeBlock k text.chars s = s := by
    have hcond : (decide (k < 0) || (k == 0 && !isItem text.chars)) = false := by
      rcases hk with hk | hk
      · simp [Nat.ne_of_gt hk]
      · simp [hk]
    rw [closeBlock, hs]
    dsimp only
    rw [hcond]
    rfl
  rw [LineIndex.line, trimStart_indent k text.startsBare, indentation_indent k text.startsBare,
    text.not_void, hclose, if_neg Bool.false_ne_true]
  dsimp only
  rw [hs]

/-- The first line of an item gives its key text, and sets the column of its keys. -/
theorem line_of_dash {column : Nat} (item : LayoutItem) {s : State} (hs : s.block = some 0)
    (hitem : s.item = none ∨ s.item = some column) :
    LineIndex.line s
        (indent column ('-' :: indent (item.moreSpaces + 1) item.key.chars)) =
      (⟨some 0, some column, some (item.keyColumn column)⟩, name? item.key.chars) := by
  let text : LineText :=
    ⟨'-' :: indent (item.moreSpaces + 1) item.key.chars, _, _, rfl, by decide, by decide⟩
  have hdash : isItem text.chars = true := rfl
  have hgetD : s.item.getD (max column 0) = column := by
    rcases hitem with h | h <;> rw [h] <;> simp
  rw [line_of_block text hs (.inr hdash)]
  show blockLine 0 column ('-' :: indent (item.moreSpaces + 1) item.key.chars) s = _
  rw [blockLine]
  dsimp only
  rw [hgetD, trimStart_indent _ item.key.startsBare, indentation_indent _ item.key.startsBare,
    hs, LayoutItem.keyColumn]
  simp only [bne_self_eq_false, Bool.false_eq_true, if_false]
  congr 3
  omega

/-- A line below gives its text if that is a key text, and changes nothing. -/
theorem line_of_body {column keys : Nat} (hkeys : column < keys) (line : BodyLine) :
    LineIndex.line ⟨some 0, some column, some keys⟩ (line.row keys).line =
      (⟨some 0, some column, some keys⟩, (line.row keys).key.bind name?) := by
  cases line with
  | void line hline => exact line_of_void hline _
  | text depth key =>
    rw [BodyLine.row, line_of_block key rfl (.inl (by omega))]
    obtain ⟨c, rest, hchars, -⟩ := key.eq_cons
    by_cases hdash : c = '-'
    · -- A dash in another column than those of the items begins none, and no name either.
      subst hdash
      have hcolumn : (keys + depth != column) = true := by simpa using by omega
      have hname : name? ('-' :: rest) = none := rfl
      rw [hchars, blockLine]
      dsimp only
      rw [Option.getD_some, if_pos hcolumn]
      by_cases hdepth : depth = 0 <;> simp [hdepth, hname]
    · rw [hchars, blockLine]
      · by_cases hdepth : depth = 0
        · simp [hdepth]
        · have hne : keys ≠ keys + depth := by omega
          simp [hdepth]
      · rintro rest' h
        exact hdash (List.cons.inj h).1

/-- A line in the first column that is no item ends the list. -/
theorem line_of_outside (text : LineText) (hdash : text.chars ≠ ['-'])
    (hitem : ¬['-', ' '] <+: text.chars) (hclosed : ¬OpensBlock text.chars) {s : State}
    (hs : s.block = some 0) : LineIndex.line s text.chars = ({ s with block := none }, none) := by
  have hclose : closeBlock 0 text.chars s = { s with block := none } := by
    rw [closeBlock, hs]
    dsimp only
    rw [Bool.eq_false_iff.2 (mt isItem_iff.1 (not_or.2 ⟨hdash, hitem⟩))]
    rfl
  have hindent : indentation text.chars = 0 := indentation_indent 0 text.startsBare
  have htrim : Text.trimStart text.chars = text.chars := trimStart_indent 0 text.startsBare
  have hopens : (after? "policies:".toList text.chars).isSome = false := by
    rw [← htrim]
    exact Bool.eq_false_iff.2 (mt isSome_after?_iff.1 hclosed)
  rw [LineIndex.line, htrim, hindent, text.not_void, hclose, if_neg Bool.false_ne_true]
  dsimp only
  rw [hopens]
  rfl

/-! ## Whole layouts -/

namespace LayoutItem

variable {column : Nat}

theorem reads_rows (item : LayoutItem) {s : State} (hs : s.block = some 0)
    (hitem : s.item = none ∨ s.item = some column) :
    Reads s (item.rows column) ⟨some 0, some column, some (item.keyColumn column)⟩ := by
  have hkeys : column < item.keyColumn column := by
    unfold keyColumn
    omega
  refine .cons (line_of_dash item hs hitem) (.of_forall fun row hrow => ?_)
  obtain ⟨line, -, rfl⟩ := List.mem_map.1 hrow
  exact line_of_body hkeys line

/-- Items are read one after the other, whatever the columns of their keys. -/
theorem reads_flatMap_rows (items : List LayoutItem) {s : State} (hs : s.block = some 0)
    (hitem : s.item = none ∨ s.item = some column) :
    ∃ s', s'.block = some 0 ∧ Reads s (items.flatMap (rows column)) s' := by
  induction items generalizing s with
  | nil => exact ⟨s, hs, .nil s⟩
  | cons item items ih =>
    obtain ⟨s', hs', hreads⟩ :=
      ih (s := ⟨some 0, some column, some (item.keyColumn column)⟩) rfl (.inr rfl)
    exact ⟨s', hs', (item.reads_rows hs hitem).append hreads⟩

end LayoutItem

/-- Rows without keys that leave a state as it is. -/
theorem reads_map_none {s : State} {lines : List (List Char)}
    (h : ∀ line ∈ lines, LineIndex.line s line = (s, none)) :
    Reads s (lines.map fun line => ⟨line, none⟩) s := by
  refine .of_forall fun row hrow => ?_
  obtain ⟨line, hline, rfl⟩ := List.mem_map.1 hrow
  exact h line hline

namespace BlockLayout

variable (layout : BlockLayout)

theorem exists_reads_after {s : State} (hs : s.block = some 0) :
    ∃ s', Reads s (layout.after.map fun line => ⟨line, none⟩) s' := by
  cases hafter : layout.after with
  | nil => exact ⟨s, .nil s⟩
  | cons first rest =>
    obtain ⟨text, hfirst, hdash, hitem⟩ := layout.after_outside first (by rw [hafter]; rfl)
    subst hfirst
    have hclosed : ∀ line ∈ text.chars :: rest, ¬OpensBlock line :=
      hafter ▸ layout.after_closed
    refine ⟨{ s with block := none }, .cons (line_of_outside text hdash hitem
      (hclosed _ List.mem_cons_self) hs) (reads_map_none fun line hline => ?_)⟩
    exact line_of_closed (hclosed line (List.mem_cons_of_mem _ hline)) rfl

/-- Rows of items, between those in front of the list and those behind it. -/
def enclose (inner : List Row) : List Row :=
  layout.before.map (fun line => ⟨line, none⟩) ++
    (⟨"policies:".toList ++ layout.heading, none⟩ ::
      (layout.gap.map (fun line => ⟨line, none⟩) ++
        (inner ++ layout.after.map fun line => ⟨line, none⟩)))

/-- Rows that are read in an open list are read in a layout around them. -/
theorem exists_reads_enclose {inner : List Row} {s : State} (hs : s.block = some 0)
    (hinner : Reads { block := some 0 } inner s) : ∃ s, Reads {} (layout.enclose inner) s := by
  have hbefore : Reads {} (layout.before.map fun line => ⟨line, none⟩) {} :=
    reads_map_none fun line hline => line_of_closed (layout.before_closed line hline) rfl
  have hgap : Reads { block := some 0 } (layout.gap.map fun line => ⟨line, none⟩)
      { block := some 0 } :=
    reads_map_none fun line hline => line_of_void (layout.gap_void line hline) _
  obtain ⟨s', hafter⟩ := layout.exists_reads_after hs
  exact ⟨s', hbefore.append (.cons (line_heading layout.heading)
    (hgap.append (hinner.append hafter)))⟩

/-- The lines of a layout give the names of its key texts and nothing else. -/
theorem exists_reads_rows : ∃ s, Reads {} layout.rows s := by
  have hall : ∃ s, s.block = some 0 ∧ Reads { block := some 0 }
      (layout.items.flatMap (LayoutItem.rows layout.column)) s :=
    LayoutItem.reads_flatMap_rows layout.items rfl (.inl rfl)
  obtain ⟨s, hs, hitems⟩ := hall
  exact layout.exists_reads_enclose hs hitems

/-- In a text in block layout, the line of a name is the first line of the items with a key text
for it. If all key texts that begin with `name:` are common ones, those for the name are, too. -/
theorem line?_ofText_iff_isLeast {text : String} (htext : Text.lines text.toList = layout.lines)
    (file name : String) :
    (∀ number, (ofText file text).line? name = some number ↔
      IsLeast {n | ∃ key, KeyOn layout.rows key n ∧ NameKey name.toList key} number) ∧
    (NamesCommonly layout.rows → ∀ number, (ofText file text).line? name = some number ↔
      IsLeast {n | ∃ key, KeyOn layout.rows key n ∧ CommonKey name.toList key} number) := by
  obtain ⟨s, hreads⟩ := layout.exists_reads_rows
  refine ⟨fun number => hreads.line?_eq_some_iff htext, fun hcommon number => ?_⟩
  have hset : {n | ∃ key, KeyOn layout.rows key n ∧ NameKey name.toList key} =
      {n | ∃ key, KeyOn layout.rows key n ∧ CommonKey name.toList key} :=
    Set.ext fun n => exists_congr fun key => and_congr_right fun hkey =>
      hcommon.nameKey_iff hkey
  rw [hreads.line?_eq_some_iff htext, hset]

/-- A list of two policies whose keys stand in different columns, with a name in a filter of
the first that is the name of the second. -/
def sample : BlockLayout where
  before := ["vars:".toList, "  name: b".toList]
  before_closed := by decide
  heading := " # ours".toList
  gap := [[]]
  gap_void := by
    intro line hline
    obtain rfl := List.mem_singleton.1 hline
    exact .blank nofun
  column := 2
  items :=
    [{ key := ⟨"name: a  # first".toList, _, _, rfl, by decide, by decide⟩
       body :=
        [.text 0 ⟨"filters:".toList, _, _, rfl, by decide, by decide⟩,
         .text 2 ⟨"- name: b".toList, _, _, rfl, by decide, by decide⟩] },
     { moreSpaces := 2
       key := ⟨"resource: s3".toList, _, _, rfl, by decide, by decide⟩
       body := [.text 0 ⟨"name: 'b'".toList, _, _, rfl, by decide, by decide⟩] }]
  after := ["name: b".toList]
  after_closed := by decide
  after_outside := by
    intro line hline
    exact ⟨⟨"name: b".toList, _, _, rfl, by decide, by decide⟩, (Option.some.inj hline).symm,
      by rw [← Option.some.inj hline]; decide, by rw [← Option.some.inj hline]; decide⟩

/-- The text of `sample`. -/
def sampleText : String :=
  "vars:\n  name: b\npolicies: # ours\n\n  - name: a  # first\n    filters:\n" ++
    "      - name: b\n  -   resource: s3\n      name: 'b'\nname: b\n"

theorem namesCommonly_sample : NamesCommonly sample.rows := by
  intro key n hkey hname
  have hmem : key ∈ ["name: a  # first".toList, "filters:".toList, "resource: s3".toList,
      "name: 'b'".toList] := hkey.mem_filterMap
  simp only [List.mem_cons, List.not_mem_nil, or_false] at hmem
  rcases hmem with rfl | rfl | rfl | rfl
  · exact ⟨_, commonKey_singleton (c := 'a') rfl (by decide) (.comment 1 " first".toList)⟩
  · exact absurd hname (by decide)
  · exact absurd hname (by decide)
  · exact ⟨['b'], .quoted (q := '\'') (by decide) (by decide) (by decide) (.blank 0)⟩

theorem isLeast_line_sample : Text.lines sampleText.toList = sample.lines ∧
    NamesCommonly sample.rows ∧
    IsLeast {n | ∃ key, KeyOn sample.rows key n ∧ CommonKey "b".toList key} 9 :=
  have htext : Text.lines sampleText.toList = sample.lines := by decide +kernel
  ⟨htext, namesCommonly_sample, ((sample.line?_ofText_iff_isLeast htext "p.yml" "b").2
    namesCommonly_sample 9).1 (by decide +kernel)⟩

/-- Policies that are named without a space, with one space and with two spaces behind the
colon. -/
def looseSample : BlockLayout :=
  .ofItems 0
    [{ key := ⟨"name:x".toList, _, _, rfl, by decide, by decide⟩ },
     { key := ⟨"name: x".toList, _, _, rfl, by decide, by decide⟩ },
     { key := ⟨"name:  y".toList, _, _, rfl, by decide, by decide⟩ }]

/-- The text of `looseSample`. -/
def looseText : String :=
  "policies:\n- name:x\n- name: x\n- name:  y\n"

/-- A key that is not a common one may come before the first that is, or be the only one. -/
theorem line?_looseText : Text.lines looseText.toList = looseSample.lines ∧
    (ofText "p.yml" looseText).line? "x" = some 2 ∧
    IsLeast {n | ∃ key, KeyOn looseSample.rows key n ∧ CommonKey "x".toList key} 3 ∧
    (ofText "p.yml" looseText).line? "y" = some 4 ∧
    ∀ n, ¬∃ key, KeyOn looseSample.rows key n ∧ CommonKey "y".toList key := by
  have hcommon : ∀ {key name : List Char} {n : Nat}, KeyOn looseSample.rows key n →
      CommonKey name key → key = "name: x".toList ∧ n = 3 := by
    rintro key name n ⟨i, rfl, line, hrow⟩ hkey
    obtain ⟨c, rest, rfl, hspace⟩ := hkey.exists_eq_append_cons
    match i with
    | 0 => cases hrow
    | 1 => cases hrow
    | 2 => cases hrow; exact ⟨rfl, rfl⟩
    | 3 => cases hrow; cases hspace
    | i + 4 => cases hrow
  have hx : CommonKey "x".toList "name: x".toList :=
    commonKey_singleton rfl (by decide) (.blank 0)
  refine ⟨by decide +kernel, by decide +kernel, ⟨⟨_, ⟨2, rfl, _, rfl⟩, hx⟩, ?_⟩,
    by decide +kernel, ?_⟩
  · rintro n ⟨key, hkey, hname⟩
    exact (hcommon hkey hname).2.ge
  · rintro n ⟨key, hkey, hname⟩
    obtain ⟨rfl, -⟩ := hcommon hkey hname
    have hsame := hname.nameKey.unique hx.nameKey
    exact absurd hsame (by decide)

end BlockLayout

end PolicyLint.LineIndex
