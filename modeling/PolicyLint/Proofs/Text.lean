import Mathlib.Data.List.Basic
import Mathlib.Data.List.TakeWhile
import PolicyLint.Text.Blank
import PolicyLint.Text.Size

/-!
# Texts without the white space around them

A text is white space, a core that neither begins nor ends with white space (`Bare`), and
white space again : `trim` finds the core (`trim_append_append`), and every text is of that
form (`exists_eq_append_trim`).
-/

namespace PolicyLint.Text

/-- Whether there is nothing but white space in a text. -/
def Blank (text : List Char) : Prop :=
  ∀ c ∈ text, isSpace c = true

/-- Whether a text does not begin with white space. -/
def StartsBare (text : List Char) : Prop :=
  ∀ c ∈ text.head?, isSpace c = false

/-- Whether there is no white space around a text. -/
structure Bare (text : List Char) : Prop where
  start : StartsBare text
  finish : ∀ c ∈ text.getLast?, isSpace c = false

theorem blank_takeWhile (text : List Char) : Blank (text.takeWhile isSpace) :=
  List.all_eq_true.1 List.all_takeWhile

theorem blank_replicate (k : Nat) : Blank (List.replicate k ' ') := by
  intro c hc
  rw [List.eq_of_mem_replicate hc]
  decide

theorem Blank.append {text rest : List Char} (h : Blank text) (h' : Blank rest) :
    Blank (text ++ rest) :=
  List.forall_mem_append.2 ⟨h, h'⟩

/-! ## The start of a text -/

theorem trimStart_append {pad : List Char} (hpad : Blank pad) (text : List Char) :
    trimStart (pad ++ text) = trimStart text :=
  List.dropWhile_append_of_pos hpad

theorem trimStart_of_startsBare {text : List Char} (h : StartsBare text) :
    trimStart text = text := by
  cases text with
  | nil => rfl
  | cons c text =>
    have hc : isSpace c = false := h c rfl
    exact List.dropWhile_cons_of_neg (by simp [hc])

theorem startsBare_trimStart (text : List Char) : StartsBare (trimStart text) := by
  intro c hc
  have := List.head?_dropWhile_not isSpace text
  rw [trimStart] at hc
  rw [Option.mem_def.1 hc] at this
  simpa using this

theorem takeWhile_append_trimStart (text : List Char) :
    text.takeWhile isSpace ++ trimStart text = text :=
  List.takeWhile_append_dropWhile

theorem takeWhile_append_of_startsBare {pad text : List Char} (hpad : Blank pad)
    (htext : StartsBare text) : (pad ++ text).takeWhile isSpace = pad := by
  rw [List.takeWhile_append_of_pos hpad]
  cases text with
  | nil => simp
  | cons c text =>
    have hc : isSpace c = false := htext c rfl
    simp [hc]

/-- A text is blank exactly if nothing is left of it. -/
theorem trimStart_eq_nil_iff {text : List Char} : trimStart text = [] ↔ Blank text :=
  List.dropWhile_eq_nil_iff

/-- What stands behind a text that is not blank does not touch its start. -/
theorem trimStart_append_of_not_blank {text : List Char} (h : ¬Blank text) (rest : List Char) :
    trimStart (text ++ rest) = trimStart text ++ rest := by
  have hcons : trimStart text ≠ [] := mt trimStart_eq_nil_iff.1 h
  unfold trimStart at hcons ⊢
  rw [List.dropWhile_append, if_neg (mt List.isEmpty_iff.1 hcons)]

theorem takeWhile_append_of_not_blank {text : List Char} (h : ¬Blank text) (rest : List Char) :
    (text ++ rest).takeWhile isSpace = text.takeWhile isSpace := by
  have hcons : trimStart text ≠ [] := mt trimStart_eq_nil_iff.1 h
  rw [List.takeWhile_append, if_neg]
  intro hlength
  have hsplit := congrArg List.length (takeWhile_append_trimStart text)
  rw [List.length_append, hlength] at hsplit
  exact hcons (List.eq_nil_of_length_eq_zero (by omega))

/-! ## Both ends of a text -/

theorem trimEnd_append {pad : List Char} (hpad : Blank pad) (text : List Char) :
    trimEnd (text ++ pad) = trimEnd text := by
  unfold trimEnd
  rw [List.reverse_append, List.dropWhile_append_of_pos fun c hc => hpad c (by simpa using hc)]

/-- White space behind a text is not seen once the text is trimmed. -/
theorem trim_append {pad : List Char} (hpad : Blank pad) (text : List Char) :
    trim (text ++ pad) = trim text := by
  by_cases h : Blank text
  · rw [trim, trim, trimStart_eq_nil_iff.2 h, trimStart_eq_nil_iff.2 (h.append hpad)]
  · rw [trim, trim, trimStart_append_of_not_blank h, trimEnd_append hpad]

theorem trimEnd_of_bare {text : List Char} (h : Bare text) : trimEnd text = text := by
  have hreverse : StartsBare text.reverse := fun c hc =>
    h.finish c (by rwa [List.head?_reverse] at hc)
  rw [trimEnd, ← trimStart, trimStart_of_startsBare hreverse, List.reverse_reverse]

/-- `trim` finds the core of a text. -/
theorem trim_append_append {pad text pad' : List Char} (hpad : Blank pad) (hpad' : Blank pad')
    (hne : text ≠ []) (h : Bare text) : trim (pad ++ text ++ pad') = text := by
  have hstart : StartsBare (text ++ pad') := fun c hc => by
    rw [List.head?_append_of_ne_nil _ hne] at hc
    exact h.start c hc
  rw [trim, List.append_assoc, trimStart_append hpad, trimStart_of_startsBare hstart,
    trimEnd_append hpad', trimEnd_of_bare h]

theorem bare_trim (text : List Char) : Bare (trim text) where
  start := by
    -- Cutting at the end leaves the first character, if any is left.
    obtain ⟨rest, hrest⟩ : trimEnd (trimStart text) <+: trimStart text := by
      rw [trimEnd, ← List.reverse_suffix, List.reverse_reverse]
      exact List.dropWhile_suffix isSpace
    intro c hc
    refine startsBare_trimStart text c ?_
    rw [← hrest]
    exact List.mem_head?_append_of_mem_head? hc
  finish c hc := by
    rw [trim, trimEnd, List.getLast?_reverse] at hc
    exact startsBare_trimStart _ c hc

/-- Every text is its core with white space around it. -/
theorem exists_eq_append_trim (text : List Char) :
    ∃ pad pad', Blank pad ∧ Blank pad' ∧ text = pad ++ trim text ++ pad' := by
  refine ⟨text.takeWhile isSpace, ((trimStart text).reverse.takeWhile isSpace).reverse,
    blank_takeWhile text, fun c hc => blank_takeWhile _ c (List.mem_reverse.1 hc), ?_⟩
  rw [trim, trimEnd, List.append_assoc, ← List.reverse_append, List.takeWhile_append_dropWhile,
    List.reverse_reverse, takeWhile_append_trimStart]

end PolicyLint.Text
