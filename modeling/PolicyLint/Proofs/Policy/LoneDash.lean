import PolicyLint.Proofs.Policy.BlockLayout

/-!
# Items whose dash stands alone

A `ListLayout` is a text in block layout in which the dash of an item may also stand alone in its
line. The keys of such an item stand below, all in one column behind that of the dash, and every
item may have another column for them (`ListItem`).

The column of the keys is taken from the line of the dash. If that has nothing else in it, the
keys are expected in the very next column, and an item with keys further to the right gives no
name (`ListItem.Shows`).

Main statement : in such a text, the line of a name is the first one with a key for it among the
keys of the items that show (`ListLayout.line?_ofText_iff_isLeast_seen`).
-/

namespace PolicyLint.LineIndex

/-! ## Layouts -/

/-- An item : with a key text behind its dash, or with the dash alone and `offset` columns
between it and the keys in the lines below. -/
inductive ListItem
  | joined (item : LayoutItem)
  | alone (offset : Nat) (body : List BodyLine)

/-- The row without the key in it. -/
def Row.hidden (row : Row) : Row :=
  ⟨row.line, none⟩

namespace ListItem

/-- The lines of an item whose dash stands in `column`, with all key texts. -/
def rows (column : Nat) : ListItem → List Row
  | joined item => item.rows column
  | alone offset body =>
    ⟨indent column ['-'], none⟩ :: body.map (BodyLine.row (column + 1 + offset))

/-- Whether the keys of an item stand where they are expected. -/
def Shows : ListItem → Prop
  | joined _ => True
  | alone offset _ => offset = 0

instance : DecidablePred Shows
  | joined _ => inferInstanceAs (Decidable True)
  | alone offset _ => inferInstanceAs (Decidable (offset = 0))

/-- The lines of an item whose dash stands in `column`, with its key texts if they show. -/
def seenRows (column : Nat) (item : ListItem) : List Row :=
  if item.Shows then item.rows column else (item.rows column).map Row.hidden

end ListItem

/-- A text with a list of policies, some of which have their dash alone. What is around the items
is that of a layout without items. -/
structure ListLayout where
  around : BlockLayout
  around_items : around.items = []
  items : List ListItem

namespace ListLayout

variable (layout : ListLayout)

/-- The lines of a layout, with all key texts of its items. -/
def rows : List Row :=
  layout.around.enclose (layout.items.flatMap (ListItem.rows layout.around.column))

/-- The lines of a layout, with the key texts of the items that show. -/
def seenRows : List Row :=
  layout.around.enclose (layout.items.flatMap (ListItem.seenRows layout.around.column))

/-- The lines of a layout. -/
def lines : List (List Char) :=
  layout.rows.map Row.line

end ListLayout

/-! ## Single items -/

/-- A dash alone gives no name, and sets the column of keys to the next one. -/
theorem line_of_loneDash {column : Nat} {s : State} (hs : s.block = some 0)
    (hitem : s.item = none ∨ s.item = some column) :
    LineIndex.line s (indent column ['-']) =
      (⟨some 0, some column, some (column + 1)⟩, none) := by
  let text : LineText := ⟨['-'], _, _, rfl, by decide, by decide⟩
  have hdash : isItem text.chars = true := rfl
  have hgetD : s.item.getD (max column 0) = column := by
    rcases hitem with h | h <;> rw [h] <;> simp
  have hindent : indentation [] = 0 := rfl
  have hname : name? (Text.trimStart []) = none := rfl
  rw [line_of_block text hs (.inr hdash)]
  show blockLine 0 column ['-'] s = _
  rw [blockLine]
  dsimp only
  rw [hgetD, hindent, hname, hs]
  simp

/-- A line further to the right than the keys gives no name, and changes nothing. -/
theorem line_of_deeper {column keys offset : Nat} (hkeys : column < keys) (hoffset : offset ≠ 0)
    (line : BodyLine) :
    LineIndex.line ⟨some 0, some column, some keys⟩ (line.row (keys + offset)).line =
      (⟨some 0, some column, some keys⟩, none) := by
  cases line with
  | void line hline => exact line_of_void hline _
  | text depth key =>
    have hbody := line_of_body hkeys (.text (offset + depth) key)
    have hdepth : offset + depth ≠ 0 := by omega
    simpa only [BodyLine.row, if_neg hdepth, Nat.add_assoc, Option.bind_none] using hbody

namespace ListItem

variable {column : Nat}

theorem map_line_seenRows (item : ListItem) :
    (item.seenRows column).map Row.line = (item.rows column).map Row.line := by
  unfold seenRows
  split
  · rfl
  · rw [List.map_map]
    rfl

/-- Items are read one by one, and leave the column of the dashes as it is. -/
theorem exists_reads_seenRows (item : ListItem) {s : State} (hs : s.block = some 0)
    (hitem : s.item = none ∨ s.item = some column) :
    ∃ s', s'.block = some 0 ∧ s'.item = some column ∧ Reads s (item.seenRows column) s' := by
  cases item with
  | joined item => exact ⟨_, rfl, rfl, item.reads_rows hs hitem⟩
  | alone offset body =>
    refine ⟨⟨some 0, some column, some (column + 1)⟩, rfl, rfl, ?_⟩
    by_cases hoffset : offset = 0
    · subst hoffset
      refine .cons (line_of_loneDash hs hitem) (.of_forall fun row hrow => ?_)
      obtain ⟨line, -, rfl⟩ := List.mem_map.1 hrow
      exact line_of_body (Nat.lt_succ_self column) line
    · have hshows : ¬(alone offset body).Shows := hoffset
      rw [seenRows, if_neg hshows]
      refine .cons (line_of_loneDash hs hitem) (.of_forall fun row hrow => ?_)
      obtain ⟨shown, hshown, rfl⟩ := List.mem_map.1 hrow
      obtain ⟨line, -, rfl⟩ := List.mem_map.1 hshown
      exact line_of_deeper (Nat.lt_succ_self column) hoffset line

/-- Items are read one after the other, whether their dashes stand alone or not. -/
theorem exists_reads_flatMap_seenRows (items : List ListItem) {s : State} (hs : s.block = some 0)
    (hitem : s.item = none ∨ s.item = some column) :
    ∃ s', s'.block = some 0 ∧ Reads s (items.flatMap (seenRows column)) s' := by
  induction items generalizing s with
  | nil => exact ⟨s, hs, .nil s⟩
  | cons item items ih =>
    obtain ⟨s', hs', hitem', hreads⟩ := item.exists_reads_seenRows hs hitem
    obtain ⟨s'', hs'', hreads'⟩ := ih hs' (.inr hitem')
    exact ⟨s'', hs'', hreads.append hreads'⟩

end ListItem

/-! ## Whole layouts -/

theorem BlockLayout.map_line_enclose (layout : BlockLayout) {inner inner' : List Row}
    (h : inner.map Row.line = inner'.map Row.line) :
    (layout.enclose inner).map Row.line = (layout.enclose inner').map Row.line := by
  simp only [enclose, List.map_append, List.map_cons, h]

namespace ListLayout

variable (layout : ListLayout)

theorem map_line_seenRows_eq_lines : layout.seenRows.map Row.line = layout.lines := by
  refine layout.around.map_line_enclose ?_
  simp only [List.map_flatMap, ListItem.map_line_seenRows]

theorem seenRows_eq_rows (h : ∀ item ∈ layout.items, item.Shows) :
    layout.seenRows = layout.rows := by
  have hitems : layout.items.flatMap (ListItem.seenRows layout.around.column) =
      layout.items.flatMap (ListItem.rows layout.around.column) :=
    List.flatMap_congr fun item hitem => if_pos (h item hitem)
  rw [seenRows, rows, hitems]

/-- The line of a name is the first one with a key for it in an item that shows. If all items
show, these are all of their keys. -/
theorem line?_ofText_iff_isLeast_seen {text : String}
    (htext : Text.lines text.toList = layout.lines) (file name : String) :
    (∀ number, (ofText file text).line? name = some number ↔
      IsLeast {n | ∃ key, KeyOn layout.seenRows key n ∧ NameKey name.toList key} number) ∧
    ((∀ item ∈ layout.items, item.Shows) →
      ∀ number, (ofText file text).line? name = some number ↔
        IsLeast {n | ∃ key, KeyOn layout.rows key n ∧ NameKey name.toList key} number) := by
  have hitems : ∃ s, s.block = some 0 ∧ Reads { block := some 0 }
      (layout.items.flatMap (ListItem.seenRows layout.around.column)) s :=
    ListItem.exists_reads_flatMap_seenRows layout.items rfl (.inl rfl)
  obtain ⟨s, hs, hitems⟩ := hitems
  obtain ⟨s', hreads⟩ := layout.around.exists_reads_enclose hs hitems
  have hlines : Text.lines text.toList = layout.seenRows.map Row.line :=
    htext.trans layout.map_line_seenRows_eq_lines.symm
  have hseen : ∀ number, (ofText file text).line? name = some number ↔
      IsLeast {n | ∃ key, KeyOn layout.seenRows key n ∧ NameKey name.toList key} number :=
    fun number => hreads.line?_eq_some_iff hlines
  exact ⟨hseen, fun hshows => layout.seenRows_eq_rows hshows ▸ hseen⟩

/-- Two policies, whose dashes stand alone. The keys of the second one are too far to the right. -/
def loneSample : ListLayout where
  around := .ofItems 0 []
  around_items := rfl
  items :=
    [.alone 0 [.text 0 ⟨"name: a".toList, _, _, rfl, by decide, by decide⟩],
     .alone 1 [.text 0 ⟨"name: b".toList, _, _, rfl, by decide, by decide⟩]]

/-- The text of `loneSample`. -/
def loneText : String :=
  "policies:\n-\n name: a\n-\n  name: b\n"

theorem isLeast_line_loneSample : Text.lines loneText.toList = loneSample.lines ∧
    IsLeast {n | ∃ key, KeyOn loneSample.seenRows key n ∧ NameKey "a".toList key} 3 :=
  have htext : Text.lines loneText.toList = loneSample.lines := by decide +kernel
  ⟨htext, ((loneSample.line?_ofText_iff_isLeast_seen htext "p.yml" "a").1 3).1 (by decide +kernel)⟩

/-- The line of the second policy is not found, although a plain key for its name stands in the
column of its keys. -/
theorem line?_loneText : Text.lines loneText.toList = loneSample.lines ∧
    KeyOn loneSample.rows "name: b".toList 5 ∧ CommonKey "b".toList "name: b".toList ∧
    (ofText "p.yml" loneText).positions = [("a", 3)] ∧
    (ofText "p.yml" loneText).line? "b" = none :=
  ⟨by decide +kernel, ⟨4, rfl, _, rfl⟩, commonKey_singleton rfl (by decide) (.blank 0),
    by decide +kernel, by decide +kernel⟩

end ListLayout

end PolicyLint.LineIndex
