import Mathlib.Data.List.Basic
import PolicyLint.Text.Blank
import PolicyLint.Yaml.Tree

/-!
# Documents of blank texts

Texts are read from the start to the end : a reader leaves an end of the text it was given
(`skipGap_suffix`, `plain?_suffix`). Where there is nothing but white space, nothing but plain
scalars can be read (`TokenReader.ScalarsOnly`), since white space that is no blank of YAML is a
character like any other.

Main statement : if a blank text is a document at all, it is a scalar
(`Node.exists_scalar_of_isBlank`, `Tree.exists_scalar_of_isBlank`).
-/

namespace PolicyLint.Yaml

open Text (isSpace)

/-! ## What a reader leaves -/

theorem skipGap_suffix (inFlow : Bool) (text : List Char) (p : Place) (inComment allowed : Bool) :
    (TokenReader.skipGap inFlow text p inComment allowed).1 <:+ text := by
  induction text generalizing p inComment allowed with
  | nil => exact List.suffix_refl _
  | cons c text ih =>
    rw [TokenReader.skipGap]
    split
    · exact (ih ..).trans (List.suffix_cons c text)
    split
    · exact (ih ..).trans (List.suffix_cons c text)
    split
    · exact (ih ..).trans (List.suffix_cons c text)
    · exact List.suffix_refl _

theorem plain?_suffix {inFlow : Bool} {indent : Nat} {text : List Char} {p : Place}
    {out : List Char} {gap : Option Gap} {result : List Char × Cursor × Bool}
    (h : plain? inFlow indent text p out gap = some result) : result.2.1.text <:+ text := by
  induction text generalizing p out gap with
  | nil =>
    obtain rfl := Option.some.inj h
    exact List.suffix_refl _
  | cons c text ih =>
    have hnext {p : Place} {out : List Char} {gap : Option Gap}
        (h : plain? inFlow indent text p out gap = some result) :
        result.2.1.text <:+ c :: text :=
      (ih h).trans (List.suffix_cons c text)
    have hstop {out : List Char} {p : Place} {hasBreak : Bool}
        (h : some (out, (⟨c :: text, p⟩ : Cursor), hasBreak) = some result) :
        result.2.1.text <:+ c :: text := by
      obtain rfl := Option.some.inj h
      exact List.suffix_refl _
    rw [plain?] at h
    split at h
    · split at h
      · cases h
      · exact hnext h
    split at h
    · exact hnext h
    split at h
    · exact hstop h
    split at h
    · cases h
    split at h
    · exact hstop h
    · exact hnext h

theorem isSpace_of_mem_lineBreaks {text : List Char} (h : ∀ c ∈ text, isSpace c) :
    ∀ c ∈ lineBreaks text, isSpace c := by
  fun_induction lineBreaks text with
  | case1 => exact h
  | case2 text ih =>
    simp only [List.forall_mem_cons] at h ⊢
    exact ⟨rfl, ih h.2.2⟩
  | case3 c text _ ih =>
    rw [List.forall_mem_cons] at h ⊢
    refine ⟨?_, ih h.2⟩
    split
    · rfl
    · exact h.1

/-! ## Tokens of white space -/

namespace TokenReader

/-- A reader that has nothing but white space left, has found nothing but plain scalars, and has
no collection open. -/
structure ScalarsOnly (s : TokenReader) : Prop where
  isSpace_left : ∀ c ∈ s.cursor.text, isSpace c
  indents_eq : s.indents = []
  outerKeys_eq : s.outerKeys = []
  tokens_plain : ∀ token ∈ s.tokens, ∃ text, token = .scalar true text

variable {s s' : TokenReader}

namespace ScalarsOnly

theorem withKey (h : s.ScalarsOnly) (key : Option PossibleKey) :
    ScalarsOnly { s with key } :=
  ⟨h.isSpace_left, h.indents_eq, h.outerKeys_eq, h.tokens_plain⟩

theorem closeBlocks (h : s.ScalarsOnly) (isClosed : Nat → Bool) :
    (s.closeBlocks isClosed).ScalarsOnly := by
  rw [TokenReader.closeBlocks]
  split
  · exact h
  · rw [h.indents_eq]
    exact ⟨h.isSpace_left, rfl, h.outerKeys_eq, h.tokens_plain⟩

theorem dropKey (h : s.ScalarsOnly) (hs : s.dropKey = some s') : s'.ScalarsOnly := by
  rw [TokenReader.dropKey] at hs
  split at hs
  · cases hs
  · obtain rfl := Option.some.inj hs
    exact h.withKey none

theorem checkKeys (h : s.ScalarsOnly) (hs : s.checkKeys = some s') : s'.ScalarsOnly := by
  simp only [TokenReader.checkKeys, h.outerKeys_eq, List.mapM_nil, Option.bind_eq_bind,
    Option.bind_eq_some_iff] at hs
  obtain ⟨key, -, outerKeys, houter, hs⟩ := hs
  obtain rfl := Option.some.inj houter
  obtain rfl := Option.some.inj hs
  exact ⟨h.isSpace_left, h.indents_eq, rfl, h.tokens_plain⟩

theorem toNextToken (h : s.ScalarsOnly) (hs : s.toNextToken = some s') : s'.ScalarsOnly := by
  simp only [TokenReader.toNextToken, Option.bind_eq_bind, Option.bind_eq_some_iff] at hs
  obtain ⟨next, hnext, hs⟩ := hs
  obtain rfl := Option.some.inj hs
  refine closeBlocks (checkKeys ?_ hnext) _
  exact ⟨fun c hc => h.isSpace_left c ((skipGap_suffix ..).mem hc), h.indents_eq, h.outerKeys_eq,
    h.tokens_plain⟩

theorem saveKey (h : s.ScalarsOnly) (hs : s.saveKey = some s') : s'.ScalarsOnly := by
  rw [TokenReader.saveKey] at hs
  split at hs
  · simp only [Option.bind_eq_bind, Option.bind_eq_some_iff] at hs
    obtain ⟨dropped, hdropped, hs⟩ := hs
    obtain rfl := Option.some.inj hs
    exact (h.dropKey hdropped).withKey _
  · obtain rfl := Option.some.inj hs
    exact h

theorem plain (h : s.ScalarsOnly) (hs : s.plain = some s') : s'.ScalarsOnly := by
  simp only [TokenReader.plain, Option.bind_eq_bind, Option.bind_eq_some_iff] at hs
  obtain ⟨saved, hsaved, ⟨out, c, hasBreak⟩, hplain, hs⟩ := hs
  obtain rfl := Option.some.inj hs
  have hsaved := h.saveKey hsaved
  exact ⟨fun c hc => hsaved.isSpace_left c ((plain?_suffix hplain).mem hc), hsaved.indents_eq,
    hsaved.outerKeys_eq, List.forall_mem_cons.2 ⟨⟨_, rfl⟩, hsaved.tokens_plain⟩⟩

theorem closeAll (h : s.ScalarsOnly) (hs : s.closeAll = some s') : s'.ScalarsOnly := by
  simp only [TokenReader.closeAll, Option.bind_eq_bind, Option.bind_eq_some_iff] at hs
  obtain ⟨dropped, hdropped, hs⟩ := hs
  obtain rfl := Option.some.inj hs
  have hdropped := (h.closeBlocks _).dropKey hdropped
  exact ⟨hdropped.isSpace_left, hdropped.indents_eq, hdropped.outerKeys_eq, hdropped.tokens_plain⟩

end ScalarsOnly

/-- White space begins a plain scalar, if anything. -/
theorem token_of_isSpace {c : Char} (hc : isSpace c) (text : List Char) :
    s.token c text = none ∨ s.token c text = s.plain := by
  have hne {d : Char} (hd : isSpace d = false) : c ≠ d := by
    rintro rfl
    exact absurd hc (by simp [hd])
  have hmark : atDocumentMark (c :: text) = false := by
    unfold atDocumentMark
    split
    · exact absurd (List.cons.inj ‹_›).1 (hne rfl)
    · exact absurd (List.cons.inj ‹_›).1 (hne rfl)
    · rfl
  have hpercent : (c == '%') = false := beq_false_of_ne (hne rfl)
  simp only [token, hmark, hpercent, Bool.and_false, Bool.false_eq_true, if_false]
  split
  case h_16 =>
    split
    · exact .inl rfl
    · exact .inr rfl
  -- No character that stands for something else is white space.
  all_goals exact absurd rfl (hne rfl)

theorem ScalarsOnly.finish {fuel : Nat} {tokens : List Token} (h : s.ScalarsOnly)
    (htokens : s.finish fuel = some tokens) :
    ∀ token ∈ tokens, ∃ text, token = .scalar true text := by
  induction fuel generalizing s with
  | zero => cases htokens
  | succ fuel ih =>
    simp only [TokenReader.finish, Option.bind_eq_bind, Option.bind_eq_some_iff] at htokens
    obtain ⟨next, hnext, htokens⟩ := htokens
    have hnext := h.toNextToken hnext
    split at htokens
    · simp only [Option.bind_eq_some_iff] at htokens
      obtain ⟨closed, hclosed, htokens⟩ := htokens
      obtain rfl := Option.some.inj htokens
      exact fun token htoken =>
        (hnext.closeAll hclosed).tokens_plain token (List.mem_reverse.1 htoken)
    · rename_i c text htext
      simp only [Option.bind_eq_some_iff] at htokens
      obtain ⟨after, hafter, htokens⟩ := htokens
      have hc : isSpace c := hnext.isSpace_left c (htext ▸ List.mem_cons_self)
      rcases token_of_isSpace hc text with hnone | hplain
      · cases hnone.symm.trans hafter
      · exact ih (hnext.plain (hplain ▸ hafter)) htokens

end TokenReader

theorem Token.plain_of_isBlank {text : String} (h : Text.isBlank text) {tokens : List Token}
    (htokens : Token.ofText? text = some tokens) :
    ∀ token ∈ tokens, ∃ content, token = .scalar true content := by
  rw [Token.ofText?] at htokens
  split at htokens
  · refine TokenReader.ScalarsOnly.finish ⟨?_, rfl, rfl, List.forall_mem_nil _⟩ htokens
    exact isSpace_of_mem_lineBreaks (List.all_eq_true.1 h)
  · cases htokens

/-! ## Documents of white space -/

/-- A plain scalar at the start of a document is the document. -/
theorem Node.eq_of_ofTokens?_scalar {content : String} {tokens : List Token} {root : Node}
    (hroot : Node.ofTokens? (.scalar true content :: tokens) = some root) :
    root = .scalar none { text := content } := by
  have hnode (handles : List (String × TagText)) :
      (NodeReader.node (3 * (tokens.length + 1) + 3) true false).run
        { tokens := .scalar true content :: tokens, handles } =
      some (.scalar none { text := content }, { tokens, handles }) :=
    rfl
  simp [Node.ofTokens?, NodeReader.document, NodeReader.directives, NodeReader.accept,
    NodeReader.peek, NodeReader.sees, hnode] at hroot
  exact hroot.2.symm

/-- A document in which nothing but plain scalars are found is a scalar. -/
theorem Node.exists_scalar_of_plain {tokens : List Token}
    (h : ∀ token ∈ tokens, ∃ content, token = .scalar true content) {root : Node}
    (hroot : Node.ofTokens? tokens = some root) : ∃ content, root = .scalar none content := by
  cases tokens with
  | nil => exact ⟨_, (Option.some.inj hroot).symm⟩
  | cons token tokens =>
    obtain ⟨content, rfl⟩ := h token List.mem_cons_self
    exact ⟨_, Node.eq_of_ofTokens?_scalar hroot⟩

/-- The root of the document in a text. -/
def Node.ofText? (text : String) : Option Node :=
  (Token.ofText? text).bind Node.ofTokens?

theorem Tree.ofText?_eq_bind (isRead : String → Bool) (text : String) :
    Tree.ofText? isRead text = (Node.ofText? text).bind (Tree.ofNode? isRead) :=
  (Option.bind_assoc ..).symm

/-- If a blank text is a document at all, its root is a scalar. -/
theorem Node.exists_scalar_of_isBlank {text : String} (h : Text.isBlank text) {root : Node}
    (hroot : Node.ofText? text = some root) : ∃ content, root = .scalar none content := by
  obtain ⟨tokens, htokens, hroot⟩ := Option.bind_eq_some_iff.1 hroot
  exact Node.exists_scalar_of_plain (Token.plain_of_isBlank h htokens) hroot

/-- If a blank text is a document at all, it is a scalar. -/
theorem Tree.exists_scalar_of_isBlank {text : String} (h : Text.isBlank text)
    { isRead : String → Bool} {tree : Tree} (htree : Tree.ofText? isRead text = some tree) :
    ∃ content, tree = .scalar content := by
  rw [Tree.ofText?_eq_bind] at htree
  obtain ⟨root, hroot, htree⟩ := Option.bind_eq_some_iff.1 htree
  obtain ⟨content, rfl⟩ := Node.exists_scalar_of_isBlank h hroot
  exact ⟨content, (Option.some.inj htree).symm⟩

end PolicyLint.Yaml
