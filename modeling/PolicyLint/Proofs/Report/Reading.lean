import Mathlib.Data.List.Basic
import PolicyLint.Report.Basic

/-!
# Reading reports back

A report whose texts have no line feeds can be read back from its text. Each line of a section
is of one of three forms (`Report.Line`), which no text in it can disguise
(`Report.Line.written_injective`), and reading the lines from the first to the last puts every
finding back into its section (`Report.read_bodyLines`).

Main statement : two such reports have the same text only if their policies have the same name
and their sections the same findings, in words (`Report.format_none_eq_iff`).
-/

namespace PolicyLint

namespace Section

theorem label_injective : Function.Injective label := by
  intro place place' h
  cases place <;> cases place' <;> first | rfl | exact absurd h (by decide)

theorem colon_not_mem_label (place : Section) : ':' ∉ place.label.toList := by
  cases place <;> decide

theorem exists_label_eq_cons (place : Section) :
    ∃ c rest, place.label.toList = c :: rest ∧ c ≠ ' ' := by
  cases place <;> exact ⟨_, _, rfl, by decide⟩

end Section

namespace Report

/-! ## Lines -/

/-- A line of a section : its label with the only finding, its label alone, or one of several
findings. -/
inductive Line
  | single (place : Section) (text : String)
  | label (place : Section)
  | entry (text : String)

namespace Line

/-- The text of a line. -/
def written : Line → String
  | single place text => "  " ++ place.label ++ ": " ++ text
  | label place => "  " ++ place.label ++ ":"
  | entry text => "    " ++ text

/-- A line that begins with a label. -/
def headed (place : Section) (rest : List Char) : List Char :=
  "  ".toList ++ (place.label.toList ++ ':' :: rest)

theorem toList_written_single (place : Section) (text : String) :
    (single place text).written.toList = headed place (' ' :: text.toList) := by
  simp [written, headed]

theorem toList_written_label (place : Section) :
    (label place).written.toList = headed place [] := by
  simp [written, headed]

theorem toList_written_entry (text : String) :
    (entry text).written.toList = "  ".toList ++ ("  ".toList ++ text.toList) := by
  simp [written]

/-- The first colon of a line ends its label. -/
theorem headed_inj {place place' : Section} {rest rest' : List Char}
    (h : headed place rest = headed place' rest') : place = place' ∧ rest = rest' := by
  have htake (place : Section) (rest : List Char) :
      (place.label.toList ++ ':' :: rest).takeWhile (· != ':') = place.label.toList := by
    rw [List.takeWhile_append_of_pos fun c hc => by
      simpa using fun h : c = ':' => place.colon_not_mem_label (h ▸ hc)]
    simp
  have hrest := List.append_cancel_left h
  have hlabel := congrArg (List.takeWhile (· != ':')) hrest
  rw [htake, htake, String.toList_inj] at hlabel
  obtain rfl := Section.label_injective hlabel
  exact ⟨rfl, (List.cons.inj (List.append_cancel_left hrest)).2⟩

/-- No label begins with white space, as the third character of an entry does. -/
theorem headed_ne_entry (place : Section) (rest : List Char) (text : String) :
    headed place rest ≠ (entry text).written.toList := by
  obtain ⟨c, label, hlabel, hc⟩ := place.exists_label_eq_cons
  rw [toList_written_entry, headed, hlabel]
  intro h
  exact hc (List.cons.inj (List.append_cancel_left h)).1

theorem written_injective : Function.Injective written := by
  intro line line' h
  rw [← String.toList_inj] at h
  cases line with
  | single place text =>
    rw [toList_written_single] at h
    cases line' with
    | single place' text' =>
      rw [toList_written_single] at h
      obtain ⟨rfl, hrest⟩ := headed_inj h
      rw [String.toList_inj.1 (List.cons.inj hrest).2]
    | label place' =>
      rw [toList_written_label] at h
      cases (headed_inj h).2
    | entry text' => exact absurd h (headed_ne_entry _ _ _)
  | label place =>
    rw [toList_written_label] at h
    cases line' with
    | single place' text' =>
      rw [toList_written_single] at h
      cases (headed_inj h).2
    | label place' =>
      rw [toList_written_label] at h
      rw [(headed_inj h).1]
    | entry text' => exact absurd h (headed_ne_entry _ _ _)
  | entry text =>
    cases line' with
    | single place' text' =>
      rw [toList_written_single] at h
      exact absurd h.symm (headed_ne_entry _ _ _)
    | label place' =>
      rw [toList_written_label] at h
      exact absurd h.symm (headed_ne_entry _ _ _)
    | entry text' =>
      rw [toList_written_entry, toList_written_entry] at h
      rw [String.toList_inj.1 (List.append_cancel_left (List.append_cancel_left h))]

theorem lineFeed_not_mem_label (place : Section) : '\n' ∉ place.label.toList := by
  cases place <;> decide

/-- What is said on a line. -/
def text? : Line → Option String
  | single _ text => some text
  | label _ => none
  | entry text => some text

theorem lineFeed_not_mem_written {line : Line} (h : ∀ text ∈ line.text?, '\n' ∉ text.toList) :
    '\n' ∉ line.written.toList := by
  cases line with
  | single place text =>
    rw [toList_written_single, headed]
    simp [lineFeed_not_mem_label place, h text rfl]
  | label place =>
    rw [toList_written_label, headed]
    simp [lineFeed_not_mem_label place]
  | entry text =>
    rw [toList_written_entry]
    simp [h text rfl]

end Line

/-! ## Sections -/

/-- The lines of a section with the given findings, in words. -/
def linesOf (place : Section) : List String → List Line
  | [] => []
  | [text] => [.single place text]
  | texts => .label place :: texts.map .entry

/-- The findings on lines, in words, with their sections. Entries are findings of the section
whose label was read last, or of `place` before any label. -/
def read (place : Section) : List Line → List (Section × String)
  | [] => []
  | .single own text :: lines => (own, text) :: read own lines
  | .label own :: lines => read own lines
  | .entry text :: lines => (place, text) :: read place lines

theorem read_map_entry_append (place : Section) (texts : List String) (lines : List Line) :
    read place (texts.map .entry ++ lines) = texts.map (Prod.mk place) ++ read place lines := by
  induction texts with
  | nil => rfl
  | cons text texts ih =>
    rw [List.map_cons, List.cons_append, read, ih]
    rfl

/-- The lines of a section are read as its findings, whatever stands before and behind them. -/
theorem exists_read_linesOf_append (before place : Section) (texts : List String) :
    ∃ after, ∀ lines, read before (linesOf place texts ++ lines) =
      texts.map (Prod.mk place) ++ read after lines := by
  match texts with
  | [] => exact ⟨before, fun lines => rfl⟩
  | [text] => exact ⟨place, fun lines => rfl⟩
  | text :: text' :: texts =>
    exact ⟨place, fun lines => read_map_entry_append place (text :: text' :: texts) lines⟩

theorem read_flatMap_linesOf (texts : Section → List String) (before : Section)
    (places : List Section) :
    read before (places.flatMap fun place => linesOf place (texts place)) =
      places.flatMap fun place => (texts place).map (Prod.mk place) := by
  induction places generalizing before with
  | nil => rfl
  | cons place places ih =>
    obtain ⟨after, hafter⟩ := exists_read_linesOf_append before place (texts place)
    rw [List.flatMap_cons, List.flatMap_cons, hafter, ih]

theorem mem_texts_of_mem_linesOf {place : Section} {texts : List String} {line : Line}
    (hline : line ∈ linesOf place texts) {text : String} (htext : text ∈ line.text?) :
    text ∈ texts := by
  match texts with
  | [] => cases hline
  | [_] =>
    obtain rfl := List.mem_singleton.1 hline
    obtain rfl := Option.some.inj htext
    exact List.mem_singleton_self _
  | _ :: _ :: _ =>
    rcases List.mem_cons.1 hline with rfl | hline
    · cases htext
    · obtain ⟨own, hown, rfl⟩ := List.mem_map.1 hline
      obtain rfl := Option.some.inj htext
      exact hown

/-! ## Reports -/

variable (report : Report)

/-- The findings of a section, in words. -/
def texts (place : Section) : List String :=
  (report.findingsOf place).map Finding.describe

/-- The lines under the header. -/
def bodyLines : List Line :=
  Section.all.flatMap fun place => linesOf place (report.texts place)

theorem sectionLines_eq (place : Section) (findings : List Finding) :
    sectionLines place.label findings =
      (linesOf place (findings.map Finding.describe)).map Line.written := by
  match findings with
  | [] => rfl
  | [finding] => rfl
  | finding :: finding' :: findings =>
    simp [sectionLines, linesOf, Line.written]

theorem lines_eq (location : Option String) :
    report.lines location = report.header location :: report.bodyLines.map Line.written := by
  rw [lines, bodyLines, List.map_flatMap]
  exact congrArg _ (List.flatMap_congr fun place _ => sectionLines_eq place _)

/-- Reading the lines under the header gives the findings in words, section after section. -/
theorem read_bodyLines (before : Section) : read before report.bodyLines =
    Section.all.flatMap fun place => (report.texts place).map (Prod.mk place) :=
  read_flatMap_linesOf report.texts before Section.all

/-- What is listed section after section tells the findings of each. -/
theorem texts_eq_filterMap (place : Section) : report.texts place =
    (Section.all.flatMap fun own => (report.texts own).map (Prod.mk own)).filterMap
      fun (own, text) => if own = place then some text else none := by
  rw [List.filterMap_flatMap]
  cases place <;> simp [Section.all, List.filterMap_map]

/-- Whether the name of the policy and each finding are on one line. -/
structure OnLines : Prop where
  policyName : '\n' ∉ report.policyName.toList
  findings : ∀ place, ∀ finding ∈ report.findingsOf place, '\n' ∉ finding.describe.toList

variable {report} {report' : Report}

/-- A line of a report is its header, or says nothing but a finding. -/
theorem eq_header_or_exists_written {location : Option String} {line : String}
    (h : line ∈ report.lines location) : line = report.header location ∨
      ∃ own : Line, line = own.written ∧
        ∀ text ∈ own.text?, ∃ place, ∃ finding ∈ report.findingsOf place,
          finding.describe = text := by
  rw [lines_eq] at h
  refine (List.mem_cons.1 h).imp id fun hbody => ?_
  obtain ⟨own, hown, rfl⟩ := List.mem_map.1 hbody
  obtain ⟨place, -, hplace⟩ := List.mem_flatMap.1 hown
  refine ⟨own, rfl, fun text htext => ?_⟩
  obtain ⟨finding, hfinding, hdescribe⟩ :=
    List.mem_map.1 (mem_texts_of_mem_linesOf hplace htext)
  exact ⟨place, finding, hfinding, hdescribe⟩

theorem OnLines.lineFeed_not_mem_header (h : report.OnLines) {location : Option String}
    (hlocation : ∀ text ∈ location, '\n' ∉ text.toList) :
    '\n' ∉ (report.header location).toList := by
  have hshown : '\n' ∉ (locationText location).toList := by
    cases location with
    | none => simp [locationText]
    | some text =>
      rw [locationText]
      split
      · simp
      · simp [hlocation text rfl]
  simp [header, h.policyName, hshown]

theorem OnLines.lineFeed_not_mem (h : report.OnLines) {location : Option String}
    (hlocation : ∀ text ∈ location, '\n' ∉ text.toList) {line : String}
    (hline : line ∈ report.lines location) : '\n' ∉ line.toList := by
  rcases eq_header_or_exists_written hline with rfl | ⟨own, rfl, hown⟩
  · exact h.lineFeed_not_mem_header hlocation
  · refine Line.lineFeed_not_mem_written fun text htext => ?_
    obtain ⟨place, finding, hfinding, rfl⟩ := hown text htext
    exact h.findings place finding hfinding

/-- The lines of a report can be told from its text. -/
theorem OnLines.splitOn_render (h : report.OnLines) :
    (report.render none).toList.splitOn '\n' = (report.lines none).map String.toList := by
  rw [render, String.toList_intercalate]
  refine List.splitOn_intercalate '\n' (fun text htext => ?_) (by simp [lines])
  obtain ⟨line, hline, rfl⟩ := List.mem_map.1 htext
  exact h.lineFeed_not_mem (by simp) hline

theorem lines_eq_of_render_eq (h : report.OnLines) (h' : report'.OnLines)
    (heq : report.render none = report'.render none) : report.lines none = report'.lines none := by
  have hsplit := h.splitOn_render
  rw [heq, h'.splitOn_render] at hsplit
  have hinjective : Function.Injective String.toList := fun _ _ => String.toList_inj.1
  exact (List.map_injective_iff.2 hinjective hsplit).symm

/-- Reports on lines have the same text exactly if the policies have the same name and the
sections the same findings, in words. -/
theorem format_none_eq_iff (h : report.OnLines) (h' : report'.OnLines) :
    report.format none = report'.format none ↔ report.policyName = report'.policyName ∧
      ∀ place, (report.findingsOf place).map Finding.describe =
        (report'.findingsOf place).map Finding.describe := by
  constructor
  · intro heq
    have hlines := lines_eq_of_render_eq h h' heq
    rw [lines_eq, lines_eq] at hlines
    obtain ⟨hheader, hbody⟩ := List.cons.inj hlines
    have hname : report.policyName = report'.policyName := by
      simpa [header, locationText] using hheader
    have hbody := List.map_injective_iff.2 Line.written_injective hbody
    refine ⟨hname, fun place => ?_⟩
    show report.texts place = report'.texts place
    rw [texts_eq_filterMap, ← read_bodyLines _ place, hbody, read_bodyLines,
      ← texts_eq_filterMap]
  · rintro ⟨hname, htexts⟩
    have hbody : report.bodyLines = report'.bodyLines :=
      List.flatMap_congr fun place _ => congrArg (linesOf place) (htexts place)
    show "\n".intercalate (report.lines none) = "\n".intercalate (report'.lines none)
    rw [lines_eq, lines_eq, hbody, header, header, hname]

/-- A label that looks like that of the next section does not turn one of several filters into
an action. -/
theorem format_none_disguised :
    let rule : Rule := { id := 1, kind := .typeAlias "old" }
    let report : Report :=
      { policyName := "p", filters := [⟨rule, some "x:"⟩, ⟨rule, some "  actions:"⟩] }
    let report' : Report :=
      { policyName := "p", filters := [⟨rule, some "x:"⟩], actions := [⟨rule, none⟩] }
    report.OnLines ∧ report'.OnLines ∧ report.format none ≠ report'.format none := by
  intro rule report report'
  have h : report.OnLines := ⟨by decide, fun place => by cases place <;> decide⟩
  have h' : report'.OnLines := ⟨by decide, fun place => by cases place <;> decide⟩
  refine ⟨h, h', fun heq => ?_⟩
  have hactions := ((format_none_eq_iff h h').1 heq).2 .actions
  exact absurd hactions (by decide)

end Report

end PolicyLint
