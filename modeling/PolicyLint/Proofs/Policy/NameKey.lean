import PolicyLint.Policy.LineIndex
import PolicyLint.Proofs.Text

/-!
# Keys that name a policy

A key names a policy if it is `name:` with a value that is not empty, and a comment behind it
at most (`NameKey`). The value is written plain or between two quotes, with white space around
it or none.

Main statement : `LineIndex.name?` finds exactly these names (`name?_eq_some_iff`). The common
ways to write a name are among them (`CommonKey.nameKey`).
-/

namespace PolicyLint.LineIndex

open Text (Blank Bare isSpace)

/-! ## Names as they are written -/

/-- Whether a text stands between two quotes. -/
def Quoted (text : List Char) : Prop :=
  ∃ q ∈ ['"', '\''], ∃ inner, text = q :: inner ++ [q]

/-- The ways to write a name : as it is, or between two quotes. -/
inductive Written (name : List Char) : List Char → Prop
  | plain (hbare : Bare name) (hquotes : ¬Quoted name) : Written name name
  | quoted {q : Char} (hq : q ∈ ['"', '\'']) : Written name (q :: name ++ [q])

/-- Whether a comment begins somewhere in a text. -/
def HasComment (text : List Char) : Prop :=
  [' ', '#'] <:+: text

instance : DecidablePred HasComment :=
  fun _ => inferInstanceAs (Decidable (_ <:+: _))

/-- The keys that give a name : the name as it is written stands behind `name:`, with white
space around it, and a comment may follow. -/
inductive NameKey (name : List Char) : List Char → Prop
  | intro {pad written pad' comment : List Char} (hname : name ≠ []) (hpad : Blank pad)
    (hpad' : Blank pad') (hwritten : Written name written)
    (hvalue : ¬HasComment (pad ++ written ++ pad'))
    (hcomment : comment = [] ∨ [' ', '#'] <+: comment) :
    NameKey name ("name:".toList ++ (pad ++ written ++ pad' ++ comment))

/-! ## Parts of a key -/

theorem after?_eq_some_iff {start text rest : List Char} :
    after? start text = some rest ↔ text = start ++ rest := by
  induction start generalizing text with
  | nil => exact Option.some_inj
  | cons a start ih =>
    cases text with
    | nil => exact iff_of_false nofun nofun
    | cons c text =>
      rw [after?]
      split
      · rename_i hac
        subst hac
        rw [ih, List.cons_append, List.cons.injEq]
        exact (and_iff_right rfl).symm
      · rename_i hac
        exact iff_of_false nofun fun h => hac (List.cons.inj h).1.symm

theorem hasComment_cons_iff {c : Char} {text : List Char} :
    HasComment (c :: text) ↔ (c = ' ' ∧ text.head? = some '#') ∨ HasComment text := by
  unfold HasComment
  rw [List.infix_cons_iff, List.cons_prefix_cons]
  refine or_congr (and_congr eq_comm ?_) Iff.rfl
  cases text with
  | nil => simp
  | cons d text =>
    rw [List.cons_prefix_cons, List.head?_cons, Option.some_inj]
    exact ⟨fun h => h.1.symm, fun h => ⟨h.symm, List.nil_prefix⟩⟩

theorem beforeComment_of_not_hasComment {text : List Char} (h : ¬HasComment text) :
    beforeComment text = text := by
  induction text with
  | nil => rfl
  | cons c text ih =>
    rw [hasComment_cons_iff, not_or] at h
    rw [beforeComment, ih h.2]
    rintro rest rfl rfl
    exact h.1 ⟨rfl, rfl⟩

/-- The text in front of the first comment. -/
theorem beforeComment_append {text comment : List Char} (h : ¬HasComment text)
    (hcomment : comment = [] ∨ [' ', '#'] <+: comment) :
    beforeComment (text ++ comment) = text := by
  rcases hcomment with rfl | ⟨rest, rfl⟩
  · rw [List.append_nil, beforeComment_of_not_hasComment h]
  · induction text with
    | nil => rfl
    | cons c text ih =>
      rw [hasComment_cons_iff, not_or] at h
      rw [List.cons_append, beforeComment, ih h.2]
      intro rest' hc htext
      cases text with
      | nil => simp at htext
      | cons d text =>
        rw [List.cons_append, List.cons.injEq] at htext
        exact h.1 ⟨hc, congrArg some htext.1⟩

/-- A text is what stands in front of its first comment, and that comment. -/
theorem exists_eq_beforeComment_append (text : List Char) :
    ¬HasComment (beforeComment text) ∧
      ∃ comment, (comment = [] ∨ [' ', '#'] <+: comment) ∧
        text = beforeComment text ++ comment := by
  fun_induction beforeComment text with
  | case1 => exact ⟨by simp [HasComment], [], .inl rfl, rfl⟩
  | case2 rest => exact ⟨by simp [HasComment], ' ' :: '#' :: rest, .inr ⟨rest, rfl⟩, rfl⟩
  | case3 c text hc ih =>
    obtain ⟨hno, comment, hcomment, htext⟩ := ih
    refine ⟨?_, comment, hcomment, ?_⟩
    · rw [hasComment_cons_iff, not_or]
      refine ⟨?_, hno⟩
      rintro ⟨rfl, hhead⟩
      obtain ⟨rest, hrest⟩ : ∃ rest, beforeComment text = '#' :: rest := by
        cases hbefore : beforeComment text with
        | nil => rw [hbefore] at hhead; cases hhead
        | cons d rest =>
          rw [hbefore] at hhead
          exact ⟨rest, by rw [Option.some.inj hhead]⟩
      rw [hrest] at htext
      exact hc (rest ++ comment) rfl htext
    · rw [List.cons_append, ← htext]

theorem between?_eq_some_iff {q : Char} {text inner : List Char} :
    between? q text = some inner ↔ text = q :: inner ++ [q] := by
  cases text with
  | nil => simp [between?]
  | cons c text =>
    rw [between?, List.cons_append, List.cons.injEq]
    constructor
    · intro h
      split at h
      · rename_i hends
        refine ⟨hends.1, ?_⟩
        rw [← Option.some.inj h]
        exact (List.dropLast_append_getLast? q hends.2).symm
      · cases h
    · rintro ⟨rfl, rfl⟩
      simp

theorem unquote_of_quoted {q : Char} (hq : q ∈ ['"', '\'']) (name : List Char) :
    unquote (q :: name ++ [q]) = name := by
  unfold unquote
  rcases List.mem_pair.1 hq with rfl | rfl
  · rw [between?_eq_some_iff.2 rfl]
    rfl
  · have hdouble : between? '"' ('\'' :: name ++ ['\'']) = none := rfl
    have hsingle : between? '\'' ('\'' :: name ++ ['\'']) = some name :=
      between?_eq_some_iff.2 rfl
    rw [hdouble, hsingle]
    rfl

theorem unquote_of_not_quoted {text : List Char} (h : ¬Quoted text) : unquote text = text := by
  have hnone : ∀ q ∈ ['"', '\''], between? q text = none := fun q hq =>
    Option.eq_none_iff_forall_ne_some.2 fun inner hinner =>
      h ⟨q, hq, inner, between?_eq_some_iff.1 hinner⟩
  rw [unquote, hnone _ (by simp), hnone _ (by simp)]
  rfl

theorem Written.unquote {name written : List Char} (h : Written name written) :
    unquote written = name := by
  cases h with
  | plain _ hquotes => exact unquote_of_not_quoted hquotes
  | quoted hq => exact unquote_of_quoted hq name

theorem written_unquote {text : List Char} (h : Bare text) :
    Written (LineIndex.unquote text) text := by
  by_cases hquoted : Quoted text
  · obtain ⟨q, hq, inner, rfl⟩ := hquoted
    rw [unquote_of_quoted hq]
    exact .quoted hq
  · rw [unquote_of_not_quoted hquoted]
    exact .plain h hquoted

theorem Written.bare {name written : List Char} (h : Written name written) : Bare written := by
  cases h with
  | plain hbare => exact hbare
  | quoted hq =>
    have hspace : ∀ q ∈ ['"', '\''], isSpace q = false := by
      intro q hq
      simp only [List.mem_cons, List.not_mem_nil, or_false] at hq
      rcases hq with rfl | rfl <;> rfl
    rename_i q
    refine ⟨fun c hc => ?_, fun c hc => ?_⟩
    · obtain rfl : q = c := by simpa using hc
      exact hspace _ hq
    · rw [List.getLast?_append, List.getLast?_singleton, Option.some_or] at hc
      exact Option.some.inj hc ▸ hspace _ hq

theorem Written.ne_nil {name written : List Char} (h : Written name written)
    (hname : name ≠ []) : written ≠ [] := by
  cases h with
  | plain => exact hname
  | quoted => exact List.cons_ne_nil _ _

/-! ## The name that a key gives -/

/-- A key gives a name exactly if it is a key for that name. -/
theorem name?_eq_some_iff {key name : List Char} : name? key = some name ↔ NameKey name key := by
  constructor
  · intro h
    unfold name? at h
    obtain ⟨value, hvalue, hname⟩ := Option.bind_eq_some_iff.1 h
    rw [after?_eq_some_iff] at hvalue
    subst hvalue
    obtain ⟨hno, comment, hcomment, hsplit⟩ := exists_eq_beforeComment_append value
    obtain ⟨pad, pad', hpad, hpad', hcore⟩ := Text.exists_eq_append_trim (beforeComment value)
    dsimp only at hname
    split at hname
    · cases hname
    · rename_i hne
      obtain rfl := Option.some.inj hname
      have hvalue : value = pad ++ Text.trim (beforeComment value) ++ pad' ++ comment := by
        rw [← hcore]
        exact hsplit
      have hkey := NameKey.intro (by simpa using hne) hpad hpad'
        (written_unquote (Text.bare_trim _)) (by rwa [← hcore]) hcomment
      rwa [← hvalue] at hkey
  · rintro ⟨hname, hpad, hpad', hwritten, hvalue, hcomment⟩
    unfold name?
    rw [after?_eq_some_iff.2 rfl, Option.bind_eq_bind, Option.bind_some,
      beforeComment_append hvalue hcomment,
      Text.trim_append_append hpad hpad' (hwritten.ne_nil hname) hwritten.bare,
      hwritten.unquote]
    simp [hname]

/-- A key is one for a single name. -/
theorem NameKey.unique {key name name' : List Char} (h : NameKey name key)
    (h' : NameKey name' key) : name = name' :=
  Option.some.inj ((name?_eq_some_iff.2 h).symm.trans (name?_eq_some_iff.2 h'))

theorem NameKey.name_isPrefix {key name : List Char} (h : NameKey name key) :
    "name:".toList <+: key := by
  cases h with
  | intro => exact List.prefix_append _ _

/-! ## Common ways to write a name -/

/-- What may stand behind a value : spaces, and a comment that a space sets off. -/
inductive Trailer : List Char → Prop
  | blank (k : Nat) : Trailer (List.replicate k ' ')
  | comment (k : Nat) (text : List Char) : Trailer (List.replicate k ' ' ++ ' ' :: '#' :: text)

/-- The common keys for a name : it stands plain or in quotes behind `name:` and a space. -/
inductive CommonKey (name : List Char) : List Char → Prop
  | plain {trailer : List Char} (hname : name ≠ []) (hcomment : ¬HasComment name)
    (hbare : Bare name) (hhash : name.head? ≠ some '#') (hquotes : ¬Quoted name)
    (htrailer : Trailer trailer) : CommonKey name ("name: ".toList ++ name ++ trailer)
  | quoted {q : Char} {trailer : List Char} (hq : q ∈ ['"', '\'']) (hname : name ≠ [])
    (hcomment : ¬HasComment name) (htrailer : Trailer trailer) :
    CommonKey name ("name: ".toList ++ (q :: name ++ [q]) ++ trailer)

theorem not_hasComment_concat {text : List Char} {c : Char} (h : ¬HasComment text)
    (hc : c ≠ '#') : ¬HasComment (text ++ [c]) := by
  unfold HasComment
  rw [List.infix_concat_iff, not_or]
  refine ⟨fun hsuffix => hc ?_, h⟩
  have hlast := hsuffix.getLast (by simp)
  simpa using hlast.symm

theorem not_hasComment_append {text pad : List Char} (h : ¬HasComment text) (hpad : Blank pad) :
    ¬HasComment (text ++ pad) := by
  induction pad generalizing text with
  | nil => rwa [List.append_nil]
  | cons c pad ih =>
    obtain ⟨hc, hpad⟩ := List.forall_mem_cons.1 hpad
    rw [List.append_cons]
    refine ih (not_hasComment_concat h ?_) hpad
    rintro rfl
    cases hc

/-- A name as it is written behind a space, with a trailer. -/
theorem NameKey.of_written {name written trailer : List Char} (hname : name ≠ [])
    (hwritten : Written name written) (hcomment : ¬HasComment (' ' :: written))
    (htrailer : Trailer trailer) : NameKey name ("name: ".toList ++ written ++ trailer) := by
  have hspace : Blank [' '] := Text.blank_replicate 1
  cases htrailer with
  | blank k =>
    have hpad := Text.blank_replicate k
    have hkey := NameKey.intro hname hspace hpad hwritten (not_hasComment_append hcomment hpad)
      (.inl rfl)
    rwa [List.append_nil] at hkey
  | comment k text =>
    have hpad := Text.blank_replicate k
    have hkey := NameKey.intro hname hspace hpad hwritten (not_hasComment_append hcomment hpad)
      (.inr (List.prefix_append [' ', '#'] text))
    rwa [List.append_assoc] at hkey

/-- A common key for a name is a key for it. -/
theorem CommonKey.nameKey {name key : List Char} (h : CommonKey name key) :
    NameKey name key := by
  cases h with
  | plain hname hcomment hbare hhash hquotes htrailer =>
    refine .of_written hname (.plain hbare hquotes) ?_ htrailer
    rw [hasComment_cons_iff, not_or]
    exact ⟨fun h => hhash h.2, hcomment⟩
  | quoted hq hname hcomment htrailer =>
    refine .of_written hname (.quoted hq) ?_ htrailer
    have hquote : ∀ q ∈ ['"', '\''], q ≠ ' ' ∧ q ≠ '#' := by
      intro q hq
      simp only [List.mem_cons, List.not_mem_nil, or_false] at hq
      rcases hq with rfl | rfl <;> simp
    rw [hasComment_cons_iff, List.cons_append, hasComment_cons_iff, not_or, not_or]
    refine ⟨fun h => (hquote _ hq).2 (Option.some.inj h.2), fun h => (hquote _ hq).1 h.1, ?_⟩
    exact not_hasComment_concat hcomment (hquote _ hq).2

/-- There is one space behind the colon of a common key, and something else behind that. -/
theorem CommonKey.exists_eq_append_cons {name key : List Char} (h : CommonKey name key) :
    ∃ c rest, key = "name: ".toList ++ c :: rest ∧ isSpace c = false := by
  cases h with
  | @plain trailer hname hcomment hbare hhash hquotes htrailer =>
    obtain ⟨c, rest, rfl⟩ := List.exists_cons_of_ne_nil hname
    exact ⟨c, rest ++ trailer, by rw [List.append_assoc]; rfl, hbare.start c rfl⟩
  | @quoted q trailer hq hname hcomment htrailer =>
    refine ⟨q, name ++ [q] ++ trailer, by rw [List.append_assoc]; rfl, ?_⟩
    rcases List.mem_pair.1 hq with rfl | rfl <;> rfl

/-- A name of one character that is written as it is. -/
theorem commonKey_singleton {c : Char} {trailer : List Char} (hspace : isSpace c = false)
    (hhash : c ≠ '#') (htrailer : Trailer trailer) :
    CommonKey [c] ("name: ".toList ++ [c] ++ trailer) := by
  have hends : ∀ d ∈ some c, isSpace d = false := by
    rintro d ⟨⟩
    exact hspace
  refine .plain (List.cons_ne_nil _ _) ?_ ⟨hends, hends⟩ (by simpa using hhash) ?_ htrailer
  · exact fun h => absurd h.length_le (by simp)
  · rintro ⟨q, -, inner, h⟩
    simpa using congrArg List.length h

end PolicyLint.LineIndex
