import Mathlib.Algebra.GroupWithZero.Nat
import Mathlib.Tactic.TFAE
import PolicyLint.Proofs.Lines
import PolicyLint.Proofs.Report.Reading

/-!
# Counting findings and lines

Whether anything was found, how many findings there are and which rules they come from is told of
a report in different ways, and so is the text. A text that does not end with a line feed
(`EndsInLine`) has as many lines as were written for it, and those of a section go by the number
of its findings (`lineCount`).

Main statement : all these agree with each other, and a location is seen in the header only
(`Report.counts_agree`).
-/

namespace PolicyLint

theorem Section.mem_all (place : Section) : place ∈ all := by
  cases place <;> decide

namespace Report

variable (report : Report)

/-! ## Findings -/

/-- The sections are asked in another order than they are written in. -/
theorem hasDeprecations_eq_any : report.hasDeprecations =
    Section.all.any fun place => !(report.findingsOf place).isEmpty := by
  simp only [hasDeprecations, Section.all, findingsOf, List.any_cons, List.any_nil, Bool.or_false]
  ac_rfl

variable {report} in
theorem hasDeprecations_iff :
    report.hasDeprecations ↔ ∃ place finding, finding ∈ report.findingsOf place := by
  rw [hasDeprecations_eq_any, List.any_eq_true]
  refine exists_congr fun place => ?_
  rw [and_iff_right place.mem_all, Bool.not_eq_true', List.isEmpty_eq_false_iff_exists_mem]

variable {report} in
theorem mem_findings_iff {finding : Finding} :
    finding ∈ report.findings ↔ ∃ place, finding ∈ report.findingsOf place := by
  rw [findings, List.mem_flatMap]
  exact exists_congr fun place => and_iff_right place.mem_all

theorem length_eq_length_findings : report.length = report.findings.length := by
  simp only [length, findings, Section.all, List.foldl_cons, List.foldl_nil, List.flatMap_cons,
    List.flatMap_nil, List.length_append, List.length_nil]
  omega

/-! ## Numbers of rules -/

variable {n m : Nat} {ids : List Nat}

theorem mem_insertId_iff : m ∈ insertId n ids ↔ m = n ∨ m ∈ ids := by
  induction ids with
  | nil => exact List.mem_cons
  | cons first ids ih =>
    rw [insertId]
    split
    · exact List.mem_cons
    · split
      · rename_i heq
        subst heq
        rw [List.mem_cons, or_self_left]
      · rw [List.mem_cons, List.mem_cons, ih, or_left_comm]

theorem ascending_insertId (h : ids.Pairwise (· < ·)) : (insertId n ids).Pairwise (· < ·) := by
  induction ids with
  | nil => exact List.pairwise_singleton _ _
  | cons first ids ih =>
    obtain ⟨hfirst, hids⟩ := List.pairwise_cons.1 h
    rw [insertId]
    split
    · rename_i hlt
      refine List.pairwise_cons.2 ⟨fun id hid => ?_, h⟩
      rcases List.mem_cons.1 hid with rfl | hid
      · exact hlt
      · exact Nat.lt_trans hlt (hfirst id hid)
    · split
      · exact h
      · refine List.pairwise_cons.2 ⟨fun id hid => ?_, ih hids⟩
        rcases mem_insertId_iff.1 hid with rfl | hid
        · omega
        · exact hfirst id hid

theorem length_insertId_le (n : Nat) (ids : List Nat) :
    (insertId n ids).length ≤ ids.length + 1 := by
  induction ids with
  | nil => exact Nat.le_refl _
  | cons first ids ih =>
    rw [insertId]
    split
    · exact Nat.le_refl _
    · split
      · exact Nat.le_succ _
      · exact Nat.succ_le_succ ih

theorem mem_ruleIds_iff {id : Nat} :
    id ∈ report.ruleIds ↔ ∃ finding ∈ report.findings, finding.id = id := by
  rw [ruleIds]
  induction report.findings with
  | nil => simp
  | cons finding findings ih =>
    rw [List.foldr_cons, mem_insertId_iff, ih, List.exists_mem_cons_iff, eq_comm]

theorem ascending_ruleIds : report.ruleIds.Pairwise (· < ·) := by
  rw [ruleIds]
  induction report.findings with
  | nil => exact .nil
  | cons finding findings ih => exact ascending_insertId ih

theorem length_ruleIds_le : report.ruleIds.length ≤ report.length := by
  rw [length_eq_length_findings, ruleIds]
  induction report.findings with
  | nil => exact Nat.le_refl _
  | cons finding findings ih =>
    exact Nat.le_trans (length_insertId_le _ _) (Nat.succ_le_succ ih)

/-- There are four ways to ask whether anything was found. -/
theorem hasDeprecations_tfae : [report.hasDeprecations = true, report.isEmpty = false,
    0 < report.length, report.ruleIds ≠ []].TFAE := by
  tfae_have 2 ↔ 1 := by
    rw [isEmpty, Bool.not_eq_false']
  tfae_have 1 ↔ 3 := by
    rw [length_eq_length_findings, List.length_pos_iff_exists_mem, hasDeprecations_iff,
      exists_comm]
    exact exists_congr fun finding => mem_findings_iff.symm
  tfae_have 3 ↔ 4 := by
    rw [length_eq_length_findings, ← List.length_pos_iff, List.length_pos_iff_exists_mem,
      List.length_pos_iff_exists_mem]
    simp only [mem_ruleIds_iff]
    exact ⟨fun ⟨finding, hfinding⟩ => ⟨_, finding, hfinding, rfl⟩,
      fun ⟨_, finding, hfinding, _⟩ => ⟨finding, hfinding⟩⟩
  tfae_finish

/-! ## The end of a text -/

/-- Whether a text ends with a character other than a line feed. -/
def EndsInLine (text : String) : Prop :=
  ∃ c ∈ text.toList.getLast?, c ≠ '\n'

theorem EndsInLine.append {rest : String} (h : EndsInLine rest) (text : String) :
    EndsInLine (text ++ rest) := by
  obtain ⟨c, hc, hne⟩ := h
  refine ⟨c, ?_, hne⟩
  rw [String.toList_append, List.getLast?_append, Option.mem_def.1 hc]
  rfl

theorem endsInLine_bracket : EndsInLine ")" :=
  ⟨')', rfl, by decide⟩

/-- No message ends with a name that it was given. -/
theorem endsInLine_describe_kind (kind : RuleKind) : EndsInLine kind.describe := by
  have hspecified : EndsInLine " must be specified)" := ⟨')', rfl, by decide⟩
  cases kind with
  | typeAlias name =>
    have hend : EndsInLine " has been deprecated" := ⟨'d', rfl, by decide⟩
    exact hend.append _
  | field name replacement => exact endsInLine_bracket.append _
  | element kind name replacement => exact endsInLine_bracket.append _
  | optionality fields =>
    match fields with
    | [] => exact hspecified.append _
    | [name] =>
      have hend : EndsInLine " deprecated (must be specified)" := ⟨')', rfl, by decide⟩
      exact hend.append _
    | _ :: _ :: _ => exact hspecified.append _

theorem endsInLine_describe (finding : Finding) : EndsInLine finding.describe := by
  have hrule := endsInLine_describe_kind finding.rule.kind
  unfold Finding.describe
  split
  · exact hrule
  · exact hrule.append _

theorem endsInLine_header (location : Option String) : EndsInLine (report.header location) := by
  have hquote : EndsInLine "'" := ⟨'\'', rfl, by decide⟩
  have hname : EndsInLine ("policy '" ++ report.policyName ++ "'") := hquote.append _
  unfold header locationText
  split
  · rwa [String.append_empty]
  · split
    · rwa [String.append_empty]
    · exact (endsInLine_bracket.append _).append _

theorem Line.endsInLine_written {line : Line} (h : ∀ text ∈ line.text?, EndsInLine text) :
    EndsInLine line.written := by
  cases line with
  | single place text => exact (h text rfl).append _
  | label place =>
    have hcolon : EndsInLine ":" := ⟨':', rfl, by decide⟩
    exact hcolon.append _
  | entry text => exact (h text rfl).append _

/-- Whatever is in a report, no line of it is empty or ends with a line feed. -/
theorem endsInLine_of_mem_lines {location : Option String} {line : String}
    (h : line ∈ report.lines location) : EndsInLine line := by
  rcases eq_header_or_exists_written h with rfl | ⟨own, rfl, hown⟩
  · exact report.endsInLine_header location
  · refine Line.endsInLine_written fun text htext => ?_
    obtain ⟨place, finding, -, rfl⟩ := hown text htext
    exact endsInLine_describe finding

theorem endsInLine_intercalate {lines : List String} (hne : lines ≠ [])
    (h : ∀ line ∈ lines, EndsInLine line) : EndsInLine ("\n".intercalate lines) := by
  induction lines with
  | nil => exact absurd rfl hne
  | cons line lines ih =>
    obtain ⟨hline, hlines⟩ := List.forall_mem_cons.1 h
    cases lines with
    | nil => rwa [String.intercalate_singleton]
    | cons next lines =>
      rw [String.intercalate_cons_cons]
      exact (ih (List.cons_ne_nil _ _) hlines).append _

theorem endsInLine_render (location : Option String) : EndsInLine (report.render location) :=
  endsInLine_intercalate (List.cons_ne_nil _ _) fun _ => report.endsInLine_of_mem_lines

/-! ## The number of lines -/

/-- The number of lines of a section with `k` findings. -/
def lineCount (k : Nat) : Nat :=
  if k ≤ 1 then k else k + 1

theorem length_sectionLines (label : String) (findings : List Finding) :
    (sectionLines label findings).length = lineCount findings.length := by
  match findings with
  | [] => rfl
  | [_] => rfl
  | _ :: _ :: _ => simp [sectionLines, lineCount]

theorem length_lines (location : Option String) : (report.lines location).length =
    1 + (Section.all.map fun place => lineCount (report.findingsOf place).length).sum := by
  rw [lines, List.length_cons, List.length_flatMap, Nat.add_comm]
  simp only [length_sectionLines]

theorem lineCount_eq_zero_iff {k : Nat} : lineCount k = 0 ↔ k = 0 := by
  unfold lineCount
  split <;> omega

theorem sum_lineCount_eq_zero_iff :
    (Section.all.map fun place => lineCount (report.findingsOf place).length).sum = 0 ↔
      report.isEmpty := by
  rw [List.sum_eq_zero_iff_forall_eq_nat, List.forall_mem_map, isEmpty, Bool.not_eq_true',
    ← Bool.not_eq_true, hasDeprecations_iff, not_exists]
  refine forall_congr' fun place => ?_
  rw [lineCount_eq_zero_iff, List.length_eq_zero_iff, not_exists,
    List.eq_nil_iff_forall_not_mem]
  exact forall_prop_of_true place.mem_all

variable {report} in
/-- A text has the lines that were written. -/
theorem OnLines.length_lines_render (h : report.OnLines) {location : Option String}
    (hlocation : ∀ text ∈ location, '\n' ∉ text.toList) :
    (Text.lines (report.render location).toList).length = (report.lines location).length := by
  rw [render, String.toList_intercalate, ← List.length_map String.toList]
  refine Text.length_lines_intercalate (by simp [lines]) fun part hpart => ?_
  obtain ⟨line, hline, rfl⟩ := List.mem_map.1 hpart
  obtain ⟨c, hc, -⟩ := report.endsInLine_of_mem_lines hline
  exact ⟨List.getLast?_isSome.1 (Option.isSome_of_mem hc), h.lineFeed_not_mem hlocation hline⟩

/-! ## The header -/

/-- What follows the header is the same for every location, and is nothing or begins another
line. -/
theorem exists_render_eq_header_append :
    ∃ body, (body = "" ∨ ∃ rest, body = "\n" ++ rest) ∧
      ∀ location, report.render location = report.header location ++ body := by
  unfold render lines
  cases Section.all.flatMap fun s => sectionLines s.label (report.findingsOf s) with
  | nil => exact ⟨"", .inl rfl, fun location => by simp⟩
  | cons line lines =>
    refine ⟨"\n" ++ "\n".intercalate (line :: lines), .inr ⟨_, rfl⟩, fun location => ?_⟩
    rw [String.intercalate_cons_cons, String.append_assoc]

theorem locationText_of_ne {location : String} (h : location ≠ "") :
    locationText (some location) = " (" ++ location ++ ")" :=
  if_neg (by simpa using h)

theorem locationText_of_forall {location : Option String} (h : ∀ text ∈ location, text = "") :
    locationText location = "" := by
  cases location with
  | none => rfl
  | some text =>
    obtain rfl := h text rfl
    rfl

/-! ## All together -/

/-- Of every report, the four ways to ask whether anything was found agree, and there are at most
as many rules in it as findings. A location that is not empty stands in brackets at the end of the
header, and the text is the same otherwise. The text does not end with a line feed. If the name of
the policy, its location and the findings are on one line each, the lines of the text are the
header and those of the sections, and there is no more than the header exactly if nothing was
found. -/
theorem counts_agree (report : Report) :
    [report.hasDeprecations = true, report.isEmpty = false, 0 < report.length,
      report.ruleIds ≠ []].TFAE ∧
    (report.ruleIds.Pairwise (· < ·) ∧
      (∀ id, id ∈ report.ruleIds ↔ ∃ place, ∃ finding ∈ report.findingsOf place,
        finding.id = id) ∧
      report.ruleIds.length ≤ report.length) ∧
    (∃ body, (body = "" ∨ ∃ rest, body = "\n" ++ rest) ∧
      report.format none = "policy '" ++ report.policyName ++ "'" ++ body ∧
      ∀ find : String → Option String,
        (∀ location, find report.policyName = some location → location ≠ "" →
          report.format (some find) =
            "policy '" ++ report.policyName ++ "'" ++ (" (" ++ location ++ ")") ++ body) ∧
        ((∀ location, find report.policyName = some location → location = "") →
          report.format (some find) = report.format none)) ∧
    (∀ locate, (report.format locate).toList.getLast? ≠ some '\n') ∧
    ∀ locate : Option (String → Option String), report.OnLines →
      (∀ location ∈ locate.bind fun find => find report.policyName, '\n' ∉ location.toList) →
      (Text.lines (report.format locate).toList).length =
        1 + (Section.all.map fun place => lineCount (report.findingsOf place).length).sum ∧
      ((Text.lines (report.format locate).toList).length = 1 ↔ report.isEmpty) := by
  refine ⟨report.hasDeprecations_tfae, ⟨report.ascending_ruleIds, fun id => ?_,
    report.length_ruleIds_le⟩, ?_, fun locate => ?_, fun locate h hlocation => ?_⟩
  · rw [mem_ruleIds_iff, exists_comm]
    simp only [mem_findings_iff, exists_and_right]
  · obtain ⟨body, hbody, hrender⟩ := report.exists_render_eq_header_append
    have hnone : report.format none = "policy '" ++ report.policyName ++ "'" ++ body := by
      rw [format, hrender, header, Option.bind_none, locationText, String.append_empty]
    refine ⟨body, hbody, hnone, fun find => ⟨fun location hfind hne => ?_, fun hempty => ?_⟩⟩
    · rw [format, hrender, header, Option.bind_some, hfind, locationText_of_ne hne]
    · rw [hnone, format, hrender, header, Option.bind_some, locationText_of_forall hempty,
        String.append_empty]
  · obtain ⟨c, hc, hne⟩ := report.endsInLine_render (locate.bind fun find => find report.policyName)
    rw [format, Option.mem_def.1 hc]
    exact fun heq => hne (Option.some.inj heq)
  · have hlength : (Text.lines (report.format locate).toList).length =
        1 + (Section.all.map fun place => lineCount (report.findingsOf place).length).sum := by
      rw [format, h.length_lines_render hlocation, length_lines]
    refine ⟨hlength, ?_⟩
    rw [hlength, Nat.add_eq_left, sum_lineCount_eq_zero_iff]

/-- A report with a finding in one section and two in another. -/
theorem counts_agree_sample :
    let rule : Rule := { id := 1, kind := .typeAlias "old" }
    let filters : List Finding := [⟨rule, some "x:"⟩, ⟨rule, some "y:"⟩]
    let report : Report := { policyName := "p", mode := [⟨rule, none⟩], filters }
    let locate : String → Option String := fun _ => some "p.yml:2"
    report.OnLines ∧
    (∃ body, report.format none = "policy 'p'" ++ body ∧
      report.format (some locate) = "policy 'p' (p.yml:2)" ++ body) ∧
    report.format (some fun _ => some "") = report.format none ∧
    (Text.lines (report.format (some locate)).toList).length = 5 := by
  intro rule filters report locate
  have h : report.OnLines := ⟨by decide, fun place => by cases place <;> decide⟩
  obtain ⟨-, -, ⟨body, -, hnone, hlocated⟩, -, hlines⟩ := report.counts_agree
  refine ⟨h, ⟨body, hnone, (hlocated locate).1 "p.yml:2" rfl (by decide)⟩,
    (hlocated fun _ => some "").2 fun location hlocation => (Option.some.inj hlocation).symm, ?_⟩
  exact (hlines (some locate) h (by simp [locate])).1

end Report

end PolicyLint
