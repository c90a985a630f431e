import PolicyLint.Command.Run
import PolicyLint.Proofs.Lines
import PolicyLint.Proofs.Policy.BlockLayout

/-!
# Byte order marks

A text may have a byte order mark in front (`marked`). The reader of YAML steps over it where a
line begins, and may find a list of policies behind it. The scan for the lines of the policies
does not know the mark, which is no white space : no list begins for it in the first line.

Main statement : the index of a text with the mark is that of the text with its first line
emptied (`ofText_marked`). It is that of the text itself if no list begins in the first line,
and all locations are lost if a list begins nowhere else.
-/

namespace PolicyLint.LineIndex

/-- A text with a byte order mark in front. -/
def marked (text : String) : String :=
  "\uFEFF" ++ text

/-- A text with nothing in its first line. -/
def emptied (text : String) : String :=
  String.ofList (text.toList.dropWhile (· != '\n'))

/-! ## First lines that say nothing -/

theorem not_opensBlock_mark (line : List Char) : ¬OpensBlock ('\uFEFF' :: line) := by
  have hbare : Text.StartsBare ('\uFEFF' :: line) := by
    intro c hc
    obtain rfl : '\uFEFF' = c := Option.some.inj hc
    decide
  rw [OpensBlock, Text.trimStart_of_startsBare hbare]
  rintro ⟨rest, hrest⟩
  exact absurd (List.head_eq_of_cons_eq hrest) (by decide)

/-- Lines in which no list begins give no names, unless one is open. -/
theorem namesFrom_of_closed {s : State} (hs : s.block = none) {lines : List (List Char)}
    (h : ∀ line ∈ lines, ¬OpensBlock line) (number : Nat) : namesFrom s number lines = [] := by
  induction lines generalizing number with
  | nil => rfl
  | cons line lines ih =>
    obtain ⟨hline, hlines⟩ := List.forall_mem_cons.1 h
    rw [namesFrom_cons (line_of_closed hline hs), ih hlines]
    rfl

/-- If no list begins in the first line, the index is that of the lines behind it. -/
theorem ofText_of_first {text : String}
    (h : ∀ first ∈ (Text.lines text.toList).head?, ¬OpensBlock first) (file : String) :
    ofText file text = ⟨file, firstNames (namesFrom {} 2 (Text.lines text.toList).tail)⟩ := by
  rw [ofText, names]
  cases hlines : Text.lines text.toList with
  | nil => rfl
  | cons first later =>
    rw [hlines] at h
    have hfirst : LineIndex.line {} first = ({}, none) := line_of_closed (h first rfl) rfl
    rw [namesFrom_cons hfirst]
    rfl

theorem lines_marked (text : String) : Text.lines (marked text).toList =
    ('\uFEFF' :: (Text.lines text.toList).headD []) :: (Text.lines text.toList).tail := by
  rw [marked, String.toList_append]
  exact Text.lines_cons (by decide) (by decide) text.toList

theorem ofText_marked_eq (file text : String) : ofText file (marked text) =
    ⟨file, firstNames (namesFrom {} 2 (Text.lines text.toList).tail)⟩ := by
  rw [ofText_of_first _ file, lines_marked]
  · rfl
  · rw [lines_marked]
    intro first hfirst
    obtain rfl := Option.some.inj hfirst
    exact not_opensBlock_mark _

theorem ofText_emptied_eq (file text : String) : ofText file (emptied text) =
    ⟨file, firstNames (namesFrom {} 2 (Text.lines text.toList).tail)⟩ := by
  obtain ⟨hempty, htail⟩ := Text.lines_dropWhile text.toList
  have hlines : Text.lines (emptied text).toList =
      Text.lines (text.toList.dropWhile (· != '\n')) := by
    rw [emptied, String.toList_ofList]
  rw [ofText_of_first _ file, hlines, htail]
  rw [hlines]
  intro first hfirst
  rw [hempty first hfirst]
  decide

/-! ## Files -/

theorem index_of_ofText {path text : String} {file : PolicyFile}
    (h : PolicyFile.ofText path text = .ok file) : file.index = ofText path text := by
  unfold PolicyFile.ofText at h
  cases hlist : Policy.listOfText text with
  | error error =>
    rw [hlist] at h
    cases h
  | ok policies =>
    rw [hlist] at h
    cases h
    rfl

/-- With the mark in front, a text has the index that it has with its first line emptied. If no
list of policies begins in that line, the reports show what they show without the mark, and if
none begins in any other line, they show no location. -/
theorem ofText_marked (path text : String) :
    ofText path (marked text) = ofText path (emptied text) ∧
    ((∀ first ∈ (Text.lines text.toList).head?, ¬OpensBlock first) →
      ofText path (marked text) = ofText path text ∧
      ∀ file markedFile, PolicyFile.ofText path text = .ok file →
        PolicyFile.ofText path (marked text) = .ok markedFile → ∀ hidesLocation report,
          markedFile.renderReport hidesLocation report =
            file.renderReport hidesLocation report) ∧
    ((∀ line ∈ (Text.lines text.toList).tail, ¬OpensBlock line) →
      (∀ name, (ofText path (marked text)).line? name = none) ∧
      ∀ markedFile, PolicyFile.ofText path (marked text) = .ok markedFile →
        ∀ (hidesLocation : Bool) (report : Report),
          markedFile.renderReport hidesLocation report = report.format none) := by
  have hmarked := ofText_marked_eq path text
  refine ⟨hmarked.trans (ofText_emptied_eq path text).symm, fun hfirst => ?_, fun hlater => ?_⟩
  · have hsame := hmarked.trans (ofText_of_first hfirst path).symm
    refine ⟨hsame, fun file markedFile hfile hmarkedFile hidesLocation report => ?_⟩
    rw [PolicyFile.renderReport, PolicyFile.renderReport, index_of_ofText hfile,
      index_of_ofText hmarkedFile, hsame]
  · have hnone : ∀ name, (ofText path (marked text)).line? name = none := by
      intro name
      rw [hmarked, namesFrom_of_closed rfl hlater]
      rfl
    refine ⟨hnone, fun markedFile hmarkedFile hidesLocation report => ?_⟩
    have hplace : markedFile.index.place? report.policyName = none := by
      rw [index_of_ofText hmarkedFile, place?, hnone]
      rfl
    cases hidesLocation with
    | true => rfl
    | false =>
      show report.render (markedFile.index.place? report.policyName) = _
      rw [hplace]
      rfl

/-- A list of policies that begins in the first line. -/
def listText : String :=
  "policies:\n  - name: b\n    resource: ec2\n"

/-- The list with a comment above. -/
def commentedText : String :=
  "# ours\n" ++ listText

/-- With the mark, the policy is read in both texts, and its location is kept in one of them. -/
theorem ofText_marked_samples :
    (∃ file markedFile, PolicyFile.ofText "p.yml" commentedText = .ok file ∧
      PolicyFile.ofText "p.yml" (marked commentedText) = .ok markedFile ∧
      markedFile.index.line? "b" = some 3 ∧
      ∀ report, markedFile.renderReport false report = file.renderReport false report) ∧
    ∃ markedFile, PolicyFile.ofText "p.yml" (marked listText) = .ok markedFile ∧
      markedFile.policies.map Policy.name = ["b"] ∧
      ∀ report : Report, markedFile.renderReport false report = report.format none := by
  have hnames : ∀ text ∈ [commentedText, marked commentedText, marked listText],
      ((PolicyFile.ofText "p.yml" text).toOption.map fun file =>
        file.policies.map Policy.name) = some ["b"] := by
    decide +kernel
  have hread : ∀ text ∈ [commentedText, marked commentedText, marked listText],
      ∃ file, PolicyFile.ofText "p.yml" text = .ok file ∧
        file.policies.map Policy.name = ["b"] := by
    intro text htext
    have hname := hnames text htext
    cases hfile : PolicyFile.ofText "p.yml" text with
    | error error =>
      rw [hfile] at hname
      cases hname
    | ok file =>
      rw [hfile] at hname
      exact ⟨file, rfl, Option.some.inj hname⟩
  obtain ⟨file, hfile, -⟩ := hread commentedText (by simp)
  obtain ⟨markedFile, hmarkedFile, -⟩ := hread (marked commentedText) (by simp)
  obtain ⟨lostFile, hlostFile, hlostNames⟩ := hread (marked listText) (by simp)
  have hfirst : ∀ first ∈ (Text.lines commentedText.toList).head?, ¬OpensBlock first := by
    decide +kernel
  have hlater : ∀ line ∈ (Text.lines listText.toList).tail, ¬OpensBlock line := by
    decide +kernel
  have hline : (ofText "p.yml" (marked commentedText)).line? "b" = some 3 := by
    decide +kernel
  obtain ⟨-, hkept, -⟩ := ofText_marked "p.yml" commentedText
  obtain ⟨-, -, hlost⟩ := ofText_marked "p.yml" listText
  refine ⟨⟨file, markedFile, hfile, hmarkedFile, ?_,
    (hkept hfirst).2 file markedFile hfile hmarkedFile false⟩, lostFile, hlostFile, hlostNames,
    (hlost hlater).2 lostFile hlostFile false⟩
  rw [index_of_ofText hmarkedFile, hline]

/-- The policy is read, and its location is lost with the mark. -/
theorem line?_listText :
    ((PolicyFile.ofText "p.yml" listText).toOption.map fun file =>
      (file.policies.map Policy.name, file.index.line? "b")) = some (["b"], some 2) ∧
    ((PolicyFile.ofText "p.yml" (marked listText)).toOption.map fun file =>
      (file.policies.map Policy.name, file.index.line? "b")) = some (["b"], none) := by
  decide +kernel

end PolicyLint.LineIndex
