import PolicyLint.Proofs.Policy.BlockLayout

/-!
# Names in quotes

A key may have the name in quotes, with spaces and a comment behind them (`quotedKey`). The text
between the quotes is the name, unless a hash behind a space stands in it : that is read as a
comment, which ends the value in front of the second quote, and so the first one stays with
what is left of the name (`quotedReading`).

Main statement : in a text in block layout, the line of a name is that of its first key in
quotes exactly if there is no such hash in the name (`BlockLayout.line?_eq_quotedKey_iff`).
-/

namespace PolicyLint.LineIndex

open Text (Blank isSpace)

/-- The key for a name in quotes `q`, and what stands behind the second one. -/
def quotedKey (q : Char) (name trailer : List Char) : List Char :=
  "name: ".toList ++ (q :: name ++ [q]) ++ trailer

/-- What is read as the name in such a key. -/
def quotedReading (q : Char) (name : List Char) : List Char :=
  if HasComment name then q :: Text.trimEnd (beforeComment name) else name

/-! ## A name that ends early -/

/-- A text without the white space at its end, and that white space. -/
theorem exists_eq_trimEnd_append (text : List Char) :
    ∃ pad, Blank pad ∧ text = Text.trimEnd text ++ pad := by
  refine ⟨(text.reverse.takeWhile isSpace).reverse, fun c hc => ?_, ?_⟩
  · exact Text.blank_takeWhile _ c (List.mem_reverse.1 hc)
  · rw [Text.trimEnd, ← List.reverse_append, List.takeWhile_append_dropWhile, List.reverse_reverse]

theorem isSpace_of_quote {q : Char} (hq : q ∈ ['"', '\'']) : isSpace q = false := by
  simp only [List.mem_cons, List.not_mem_nil, or_false] at hq
  rcases hq with rfl | rfl <;> decide

theorem ne_hash_of_quote {q : Char} (hq : q ∈ ['"', '\'']) : q ≠ '#' ∧ q ≠ ' ' := by
  simp only [List.mem_cons, List.not_mem_nil, or_false] at hq
  rcases hq with rfl | rfl <;> decide

/-- A quote in front of a text in which there is none is part of the name. -/
theorem written_cons_trimEnd {q : Char} (hq : q ∈ ['"', '\'']) {text : List Char}
    (hmem : q ∉ text) : Written (q :: Text.trimEnd text) (q :: Text.trimEnd text) := by
  obtain ⟨pad, hpad, htext⟩ := exists_eq_trimEnd_append text
  have hsubset : q ∉ Text.trimEnd text := fun h =>
    hmem (htext ▸ List.mem_append_left pad h)
  refine .plain ⟨fun c hc => ?_, fun c hc => ?_⟩ ?_
  · obtain rfl : q = c := by simpa using hc
    exact isSpace_of_quote hq
  · cases hcut : Text.trimEnd text with
    | nil =>
      obtain rfl : q = c := by simpa [hcut] using hc
      exact isSpace_of_quote hq
    | cons d rest =>
      rw [hcut, List.getLast?_cons_cons, ← hcut, Text.trimEnd, List.getLast?_reverse] at hc
      exact Text.startsBare_trimStart _ c hc
  · rintro ⟨q', -, inner, hquoted⟩
    obtain ⟨rfl, hrest⟩ := List.cons.inj hquoted
    exact hsubset (by rw [hrest]; simp)

/-- In a name with a hash behind a space, what is in front of it is read. -/
theorem nameKey_of_hasComment {q : Char} (hq : q ∈ ['"', '\'']) {name : List Char}
    (hmem : q ∉ name) (hcomment : HasComment name) (trailer : List Char) :
    NameKey (q :: Text.trimEnd (beforeComment name)) (quotedKey q name trailer) := by
  obtain ⟨hno, comment, hstart, hname⟩ := exists_eq_beforeComment_append name
  obtain ⟨pad, hpad, hcut⟩ := exists_eq_trimEnd_append (beforeComment name)
  have hstart : [' ', '#'] <+: comment := by
    rcases hstart with rfl | hstart
    · rw [List.append_nil] at hname
      exact absurd (hname ▸ hcomment) hno
    · exact hstart
  have hmem : q ∉ beforeComment name := fun h => hmem (hname ▸ List.mem_append_left comment h)
  have hvalue : ¬HasComment ([' '] ++ q :: Text.trimEnd (beforeComment name) ++ pad) := by
    change ¬HasComment (' ' :: q :: (Text.trimEnd (beforeComment name) ++ pad))
    rw [← hcut, hasComment_cons_iff, hasComment_cons_iff]
    simp [ne_hash_of_quote hq, hno]
  have hkey := NameKey.intro (List.cons_ne_nil _ _) (Text.blank_replicate 1) hpad
    (written_cons_trimEnd hq hmem) hvalue
    (.inr (hstart.trans (List.prefix_append comment ([q] ++ trailer))))
  have hsplit : Text.trimEnd (beforeComment name) ++ (pad ++ (comment ++ q :: trailer)) =
      name ++ q :: trailer := by
    rw [← List.append_assoc, ← hcut, ← List.append_assoc, ← hname]
  have hrest : q :: name ++ [q] ++ trailer =
      q :: Text.trimEnd (beforeComment name) ++ pad ++ (comment ++ ([q] ++ trailer)) := by
    simp [hsplit]
  have heq : quotedKey q name trailer = "name:".toList ++ ([' '] ++
      q :: Text.trimEnd (beforeComment name) ++ pad ++ (comment ++ ([q] ++ trailer))) :=
    congrArg (fun value => "name:".toList ++ ' ' :: value) hrest
  rwa [heq]

/-! ## The name of a key in quotes -/

/-- A key in quotes gives one name, which is the text between them if no comment begins
there. -/
theorem nameKey_quotedKey_iff {q : Char} (hq : q ∈ ['"', '\'']) {name trailer : List Char}
    (hname : name ≠ []) (hmem : q ∉ name) (htrailer : Trailer trailer) {other : List Char} :
    NameKey other (quotedKey q name trailer) ↔ other = quotedReading q name := by
  have hreading : NameKey (quotedReading q name) (quotedKey q name trailer) := by
    unfold quotedReading
    split
    · rename_i hcomment
      exact nameKey_of_hasComment hq hmem hcomment trailer
    · rename_i hcomment
      exact (CommonKey.quoted hq hname hcomment htrailer).nameKey
  constructor
  · exact fun hother => hother.unique hreading
  · rintro rfl
    exact hreading

theorem quotedReading_eq_iff {q : Char} {name : List Char} (hmem : q ∉ name) :
    quotedReading q name = name ↔ ¬HasComment name := by
  unfold quotedReading
  split
  · rename_i hcomment
    refine iff_of_false (fun heq => hmem ?_) (not_not.2 hcomment)
    exact heq ▸ List.mem_cons_self
  · rename_i hcomment
    exact iff_of_true rfl hcomment

namespace BlockLayout

variable (layout : BlockLayout)

/-- Let a key have a name in quotes, and no key above it give that name. Its line is that of the
name exactly if no hash behind a space stands in the name. If one does, the line belongs to the
text in front of it with the first quote, unless a key above gives that text. -/
theorem line?_eq_quotedKey_iff {text : String} (htext : Text.lines text.toList = layout.lines)
    (file : String) {name : String} {q : Char} {trailer : List Char} {number : Nat}
    (hq : q ∈ ['"', '\'']) (hname : name.toList ≠ []) (hmem : q ∉ name.toList)
    (htrailer : Trailer trailer)
    (hkey : KeyOn layout.rows (quotedKey q name.toList trailer) number)
    (hfirst : ∀ n < number, ∀ key, KeyOn layout.rows key n → ¬NameKey name.toList key) :
    ((ofText file text).line? name = some number ↔ ¬HasComment name.toList) ∧
      ∃ n ≤ number,
        (ofText file text).line? (String.ofList (quotedReading q name.toList)) = some n := by
  obtain ⟨s, hreads⟩ := layout.exists_reads_rows
  have hgives : ∀ other : List Char,
      NameKey other (quotedKey q name.toList trailer) ↔ other = quotedReading q name.toList :=
    fun other => nameKey_quotedKey_iff hq hname hmem htrailer
  constructor
  · rw [hreads.line?_eq_some_iff htext, ← quotedReading_eq_iff hmem]
    constructor
    · rintro ⟨⟨key, hon, hgiven⟩, -⟩
      rw [hon.unique hkey, hgives] at hgiven
      exact hgiven.symm
    · intro hreading
      refine ⟨⟨_, hkey, (hgives _).2 hreading.symm⟩, fun n hn => ?_⟩
      obtain ⟨key, hon, hgiven⟩ := hn
      exact not_lt.1 fun hlt => hfirst n hlt key hon hgiven
  · have hset : number ∈ {n | ∃ key, KeyOn layout.rows key n ∧
        NameKey (String.ofList (quotedReading q name.toList)).toList key} :=
      ⟨_, hkey, (hgives _).2 String.toList_ofList⟩
    classical
    refine ⟨Nat.find ⟨number, hset⟩, Nat.find_min' _ hset, ?_⟩
    rw [hreads.line?_eq_some_iff htext]
    exact ⟨Nat.find_spec ⟨number, hset⟩, fun n hn => Nat.find_min' _ hn⟩

/-- Two policies, one of which has a name in quotes with a colon in it and spaces around it. -/
def quotedSample : BlockLayout :=
  ofItems 2
    [{ key := ⟨"name: c".toList, _, _, rfl, by decide, by decide⟩ },
     { key := ⟨"name: ' a: b '  # ours".toList, _, _, rfl, by decide, by decide⟩ }]

/-- The text of `quotedSample`. -/
def quotedText : String :=
  "policies:\n  - name: c\n  - name: ' a: b '  # ours\n"

theorem line?_quotedText : Text.lines quotedText.toList = quotedSample.lines ∧
    KeyOn quotedSample.rows (quotedKey '\'' " a: b ".toList "  # ours".toList) 3 ∧
    (ofText "p.yml" quotedText).line? " a: b " = some 3 := by
  have htext : Text.lines quotedText.toList = quotedSample.lines := by decide +kernel
  have hkey : KeyOn quotedSample.rows (quotedKey '\'' " a: b ".toList "  # ours".toList) 3 :=
    ⟨2, rfl, _, rfl⟩
  have hfirst : ∀ n < 3, ∀ key, KeyOn quotedSample.rows key n →
      ¬NameKey " a: b ".toList key := by
    rintro n hn key ⟨i, rfl, line, hrow⟩ hkey
    have hi : i = 0 ∨ i = 1 := by omega
    rcases hi with rfl | rfl
    · cases hrow
    · cases hrow
      rw [← name?_eq_some_iff] at hkey
      revert hkey
      decide
  refine ⟨htext, hkey, ?_⟩
  exact (quotedSample.line?_eq_quotedKey_iff htext "p.yml" (by decide) (by decide) (by decide)
    (.comment 1 " ours".toList) hkey hfirst).1.2 (by decide)

/-- One policy, the name of which has a hash behind a space. -/
def hashSample : BlockLayout :=
  ofItems 2 [{ key := ⟨"name: \"a #b\"".toList, _, _, rfl, by decide, by decide⟩ }]

/-- The text of `hashSample`. -/
def hashText : String :=
  "policies:\n  - name: \"a #b\"\n"

/-- The line of a name with a hash behind a space is not found, although there is no other
key. -/
theorem line?_hashText : Text.lines hashText.toList = hashSample.lines ∧
    KeyOn hashSample.rows (quotedKey '"' "a #b".toList []) 2 ∧
    (∀ n < 2, ∀ key, ¬KeyOn hashSample.rows key n) ∧
    (ofText "p.yml" hashText).line? "a #b" = none := by
  refine ⟨by decide +kernel, ⟨1, rfl, _, rfl⟩, ?_, by decide +kernel⟩
  rintro n hn key ⟨i, rfl, line, hrow⟩
  obtain rfl : i = 0 := by omega
  cases hrow

end BlockLayout

end PolicyLint.LineIndex
