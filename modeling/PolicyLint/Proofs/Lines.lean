import Mathlib.Data.List.Induction
import PolicyLint.Text.Lines

/-!
# The lines of texts that are put together

A text that ends where a line ends (`Whole`) has its lines apart from those of any text behind
it (`lines_append`). Every text is such a text with at most one more line behind it, which no
line feed ends (`exists_eq_whole_append`). Lines that are put together by line feeds are as many
again (`length_lines_intercalate`).

Line feeds with a carriage return before them end the same lines (`lines_withReturns`). What
stands in front of a text, or is left of it behind its first line, changes that line only
(`lines_cons`, `lines_dropWhile`).
-/

namespace PolicyLint.Text

/-- Whether no line goes on at the end of a text. -/
def Whole (text : List Char) : Prop :=
  text = [] ∨ text.getLast? = some '\n'

/-- What ends a line. -/
def lineEnds : List (List Char) :=
  [['\n'], ['\r', '\n']]

theorem whole_concat (text : List Char) : Whole (text ++ ['\n']) :=
  .inr List.getLast?_concat

theorem Whole.append {text rest : List Char} (h : Whole text) (h' : Whole rest) :
    Whole (text ++ rest) := by
  obtain rfl | hlast := h'
  · rwa [List.append_nil]
  · refine .inr ?_
    rw [List.getLast?_append, hlast]
    rfl

/-- A text with the end of a line behind it. -/
theorem whole_append_of_mem_lineEnds {ending : List Char} (h : ending ∈ lineEnds)
    (text : List Char) : Whole (text ++ ending) := by
  simp only [lineEnds, List.mem_cons, List.not_mem_nil, or_false] at h
  obtain rfl | rfl := h
  · exact whole_concat text
  · exact List.append_assoc text ['\r'] ['\n'] ▸ whole_concat (text ++ ['\r'])

/-! ## Texts behind each other -/

theorem linesFrom_append_break (start text rest : List Char) :
    linesFrom start (text ++ '\n' :: rest) = linesFrom start (text ++ ['\n']) ++ lines rest := by
  induction text generalizing start with
  | nil => rfl
  | cons c text ih =>
    rw [List.cons_append, List.cons_append, linesFrom, linesFrom]
    split
    · rw [ih, List.cons_append]
    · exact ih _

theorem lines_append {text : List Char} (h : Whole text) (rest : List Char) :
    lines (text ++ rest) = lines text ++ lines rest := by
  obtain rfl | hlast := h
  · rfl
  · obtain ⟨text, rfl⟩ := List.getLast?_eq_some_iff.1 hlast
    rw [List.append_assoc]
    exact linesFrom_append_break [] text rest

/-- A text is lines that are ended, and a line that is not, which may be empty. -/
theorem exists_eq_whole_append (text : List Char) :
    ∃ before last, text = before ++ last ∧ Whole before ∧ '\n' ∉ last := by
  induction text using List.reverseRecOn with
  | nil => exact ⟨[], [], rfl, .inl rfl, List.not_mem_nil⟩
  | append_singleton text c ih =>
    by_cases hc : c = '\n'
    · subst hc
      exact ⟨text ++ ['\n'], [], (List.append_nil _).symm, whole_concat text, List.not_mem_nil⟩
    · obtain ⟨before, last, rfl, hbefore, hlast⟩ := ih
      refine ⟨before, last ++ [c], List.append_assoc _ _ _, hbefore, ?_⟩
      simp [hlast, Ne.symm hc]

/-! ## Single lines -/

theorem dropReturn_cons {c : Char} (hc : c ≠ '\r') (line : List Char) :
    dropReturn (c :: line) = c :: line := by
  rw [dropReturn]
  rintro line' ⟨⟩
  exact hc rfl

theorem linesFrom_append {line : List Char} (hline : '\n' ∉ line) (start rest : List Char) :
    linesFrom start (line ++ rest) = linesFrom (line.reverse ++ start) rest := by
  induction line generalizing start with
  | nil => rfl
  | cons c line ih =>
    obtain ⟨hc, hline⟩ := List.ne_and_not_mem_of_not_mem_cons hline
    rw [List.cons_append, linesFrom, if_neg (Ne.symm hc), ih hline]
    simp

theorem lines_of_not_mem {line : List Char} (hline : '\n' ∉ line) :
    lines line = if line = [] then [] else [line] := by
  have h := linesFrom_append hline [] []
  rw [List.append_nil, List.append_nil] at h
  rw [lines, h, linesFrom]
  simp

/-- The line in front of a line feed loses one carriage return, if it has any at its end. -/
theorem lines_concat_break {line : List Char} (hline : '\n' ∉ line) :
    lines (line ++ ['\n']) = [(dropReturn line.reverse).reverse] := by
  have h := linesFrom_append hline [] ['\n']
  rw [List.append_nil] at h
  rw [lines, h]
  rfl

theorem reverse_dropReturn_reverse (line : List Char) :
    (dropReturn line.reverse).reverse = line ∨
      line = (dropReturn line.reverse).reverse ++ ['\r'] := by
  cases hreverse : line.reverse with
  | nil =>
    left
    rw [List.reverse_eq_nil_iff.1 hreverse]
    rfl
  | cons c rest =>
    have hline : line = rest.reverse ++ [c] := by
      rw [← List.reverse_reverse line, hreverse, List.reverse_cons]
    by_cases hc : c = '\r'
    · subst hc
      exact .inr hline
    · left
      rw [dropReturn_cons hc, List.reverse_cons, hline]

/-- A line that is ended is one line, up to a carriage return at its end. -/
theorem exists_lines_append_end {line ending : List Char} (hline : '\n' ∉ line)
    (hending : ending ∈ lineEnds) :
    ∃ line', lines (line ++ ending) = [line'] ∧ (line' = line ∨ line = line' ++ ['\r']) := by
  simp only [lineEnds, List.mem_cons, List.not_mem_nil, or_false] at hending
  obtain rfl | rfl := hending
  · exact ⟨_, lines_concat_break hline, reverse_dropReturn_reverse line⟩
  · have hreturn : '\n' ∉ line ++ ['\r'] := by simp [hline]
    refine ⟨line, ?_, .inl rfl⟩
    rw [List.append_cons, lines_concat_break hreturn, List.reverse_append]
    exact congrArg (fun l => [l]) (List.reverse_reverse line)

/-- There is a place behind any number of lines, before the last one. -/
theorem exists_eq_append_of_lt {text : List Char} {n : Nat} (h : n < (lines text).length) :
    ∃ before after, text = before ++ after ∧ Whole before ∧ (lines before).length = n := by
  induction n with
  | zero => exact ⟨[], text, rfl, .inl rfl, rfl⟩
  | succ n ih =>
    obtain ⟨before, after, rfl, hbefore, rfl⟩ := ih (by omega)
    rw [lines_append hbefore, List.length_append] at h
    by_cases hbreak : '\n' ∈ after
    · obtain ⟨line, rest, rfl, hline⟩ := List.eq_append_cons_of_mem hbreak
      refine ⟨before ++ (line ++ ['\n']), rest, by simp, hbefore.append (whole_concat line), ?_⟩
      rw [lines_append hbefore, lines_concat_break hline, List.length_append, List.length_singleton]
    · rw [lines_of_not_mem hbreak] at h
      split at h <;> simp only [List.length_nil, List.length_singleton] at h <;> omega

/-- A text of lines that are not empty, put together by line feeds, has that many lines. -/
theorem length_lines_intercalate {parts : List (List Char)} (hne : parts ≠ [])
    (h : ∀ part ∈ parts, part ≠ [] ∧ '\n' ∉ part) :
    (lines (['\n'].intercalate parts)).length = parts.length := by
  induction parts with
  | nil => exact absurd rfl hne
  | cons part parts ih =>
    obtain ⟨⟨hpart, hbreak⟩, hparts⟩ := List.forall_mem_cons.1 h
    cases parts with
    | nil =>
      rw [List.intercalate_singleton, lines_of_not_mem hbreak, if_neg hpart]
    | cons next parts =>
      rw [List.intercalate_cons_cons, lines_append (whole_concat part), lines_concat_break hbreak,
        List.length_append, ih (List.cons_ne_nil _ _) hparts, List.length_singleton,
        List.length_cons (a := part), Nat.add_comm]

/-! ## The first line -/

theorem linesFrom_concat {c : Char} (hc : c ≠ '\r') (start text : List Char) :
    linesFrom (start ++ [c]) text =
      (c :: (linesFrom start text).headD []) :: (linesFrom start text).tail := by
  -- The line that goes on is given in reverse, so its first character stands last.
  induction text generalizing start with
  | nil =>
    rw [linesFrom, linesFrom, List.isEmpty_eq_false_iff.2 (by simp), List.reverse_append]
    cases start <;> rfl
  | cons d text ih =>
    rw [linesFrom, linesFrom]
    split
    · have hdrop : dropReturn (start ++ [c]) = dropReturn start ++ [c] := by
        cases start with
        | nil => exact dropReturn_cons hc []
        | cons e start =>
          by_cases he : e = '\r'
          · subst he
            rfl
          · rw [List.cons_append, dropReturn_cons he, dropReturn_cons he, List.cons_append]
      rw [hdrop, List.reverse_append]
      rfl
    · exact ih (d :: start)

/-- A character in front of a text stands in its first line. -/
theorem lines_cons {c : Char} (hbreak : c ≠ '\n') (hreturn : c ≠ '\r') (text : List Char) :
    lines (c :: text) = (c :: (lines text).headD []) :: (lines text).tail := by
  rw [lines, linesFrom, if_neg hbreak]
  exact linesFrom_concat hreturn [] text

/-- What is left of a text without its first line begins with an empty line. -/
theorem lines_dropWhile (text : List Char) :
    (∀ first ∈ (lines (text.dropWhile (· != '\n'))).head?, first = []) ∧
      (lines (text.dropWhile (· != '\n'))).tail = (lines text).tail := by
  have hfrom : ∀ start, (lines (text.dropWhile (· != '\n'))).tail =
      (linesFrom start text).tail := by
    induction text with
    | nil =>
      intro start
      cases start <;> rfl
    | cons c text ih =>
      intro start
      by_cases hc : c = '\n'
      · subst hc
        rfl
      · rw [List.dropWhile_cons_of_pos (by simpa using hc), linesFrom, if_neg hc]
        exact ih _
  refine ⟨fun first hfirst => ?_, hfrom []⟩
  cases hrest : text.dropWhile (· != '\n') with
  | nil =>
    rw [hrest] at hfirst
    cases hfirst
  | cons c rest =>
    have hhead := List.head?_dropWhile_not (· != '\n') text
    rw [hrest] at hhead hfirst
    obtain rfl : c = '\n' := by simpa using hhead
    exact (Option.some.inj hfirst).symm

/-! ## Carriage returns -/

/-- A text with a carriage return before every line feed. -/
def withReturns (text : List Char) : List Char :=
  text.flatMap fun c => if c = '\n' then ['\r', '\n'] else [c]

theorem linesFrom_withReturns {text : List Char} (htext : '\r' ∉ text) {start : List Char}
    (hstart : '\r' ∉ start) : linesFrom start (withReturns text) = linesFrom start text := by
  induction text generalizing start with
  | nil => rfl
  | cons c text ih =>
    obtain ⟨hc, htext⟩ := List.ne_and_not_mem_of_not_mem_cons htext
    rw [withReturns, List.flatMap_cons, linesFrom]
    split
    · -- What the line feed ends is the same with the new carriage return as it was without any.
      have hdrop : dropReturn start = start := by
        cases start with
        | nil => rfl
        | cons d start => exact dropReturn_cons (List.ne_of_not_mem_cons hstart).symm start
      rw [hdrop, ← ih htext List.not_mem_nil]
      rfl
    · rename_i hbreak
      rw [List.singleton_append, linesFrom, if_neg hbreak]
      exact ih htext (List.not_mem_cons_of_ne_of_not_mem hc hstart)

theorem lines_withReturns {text : List Char} (htext : '\r' ∉ text) :
    lines (withReturns text) = lines text :=
  linesFrom_withReturns htext List.not_mem_nil

end PolicyLint.Text
