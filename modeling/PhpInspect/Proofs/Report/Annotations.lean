import PhpInspect.Proofs.Path
import PhpInspect.Proofs.Report.Escaping
import PhpInspect.Proofs.Text.Framing

/-! # Reading annotations back

An annotation puts the fields of an issue between marks and ends with a line feed. Of the texts in it only the message
is escaped. The file and the rule stand there as they are, so a line feed in them breaks the line, and a file or rule
that holds the mark behind it ends too early. Without these all issues can be read back.
-/

namespace PhpInspect.Report

variable {i : Issue} {issues : List Issue}

/-- The fields of an annotation, each with the mark before it. -/
def annotationFields (i : Issue) : List (List Char × List Char) :=
  [("::".toList, i.severity.name.toList), (" file=".toList, i.file.toList), (",line=".toList, Nat.toDigits 10 i.line),
    (",endLine=".toList, Nat.toDigits 10 i.endLine), (",title=".toList, i.rule.toList),
    ("::".toList, (escapeMessage i.message).toList)]

/-- An annotation without the line feed at its end. -/
def annotationLine (i : Issue) : List Char := Text.framed [] (annotationFields i)

theorem toList_annotate (i : Issue) : (annotate i).toList = annotationLine i ++ ['\n'] := by
  delta annotate
  simp only [annotationLine, annotationFields, Text.framed, Nat.toString_eq_ofList_toDigits, String.toList_append,
    String.toList_ofList, List.append_assoc, List.nil_append]
  rfl

theorem toList_github_cons (i : Issue) (issues : List Issue) :
    (github (i :: issues)).toList = annotationLine i ++ '\n' :: (github issues).toList := by
  simp [github, toList_annotate]

/-! ### One line for each issue -/

/-- Nothing in the annotation of an issue breaks its line. -/
def OnOneLine (i : Issue) : Prop := '\n' ∉ i.file.toList ∧ '\n' ∉ i.rule.toList

instance (i : Issue) : Decidable (OnOneLine i) := inferInstanceAs (Decidable (_ ∧ _))

theorem not_mem_toDigits {c : Char} (hc : c.isDigit = false) (n : Nat) : c ∉ Nat.toDigits 10 n := by
  intro hmem
  have hdigit := Nat.isDigit_of_mem_toDigits (by decide) (by decide) hmem
  rw [hc] at hdigit
  exact Bool.false_ne_true hdigit

theorem lineFeed_not_mem_annotationLine : '\n' ∉ annotationLine i ↔ OnOneLine i := by
  have hseverity : '\n' ∉ i.severity.name.toList := by cases i.severity <;> decide
  have hdigits := not_mem_toDigits (show '\n'.isDigit = false from rfl)
  have hmessage := lineFeed_not_mem_escapeMessage i.message
  simp [annotationLine, annotationFields, Text.framed, OnOneLine, hseverity, hdigits, hmessage]

theorem count_github (issues : List Issue) : issues.length ≤ (github issues).toList.count '\n' ∧
    ((github issues).toList.count '\n' = issues.length ↔ ∀ i ∈ issues, OnOneLine i) := by
  induction issues with
  | nil => simp [github]
  | cons i issues ih =>
    obtain ⟨hle, hiff⟩ := ih
    have hline : (annotationLine i).count '\n' = 0 ↔ OnOneLine i := by
      rw [List.count_eq_zero, lineFeed_not_mem_annotationLine]
    rw [toList_github_cons, List.count_append, List.count_cons_self, List.length_cons, List.forall_mem_cons, ← hline,
      ← hiff]
    omega

theorem segments_github (h : ∀ i ∈ issues, OnOneLine i) :
    Text.segments '\n' (github issues).toList = issues.map annotationLine ++ [[]] := by
  induction issues with
  | nil => simp [github, Text.segments]
  | cons i issues ih =>
    obtain ⟨hi, hissues⟩ := List.forall_mem_cons.1 h
    rw [toList_github_cons, Text.segments_append,
      Text.segments_of_not_mem (lineFeed_not_mem_annotationLine.2 hi), ih hissues]
    rfl

/-! ### Reading -/

/-- The file and the rule do not hold the marks behind them, nor does the rule end like the mark behind it begins. -/
structure IsFramed (i : Issue) : Prop where
  file : ¬ ",line=".toList <:+: i.file.toList
  rule : ¬ "::".toList <:+: i.rule.toList ++ [':']

instance (i : Issue) : Decidable (IsFramed i) := decidable_of_iff (_ ∧ _) ⟨fun h => ⟨h.1, h.2⟩, fun h => ⟨h.1, h.2⟩⟩

def severityOf? (name : List Char) : Option Severity :=
  if name = Severity.error.name.toList then some .error
  else if name = Severity.warning.name.toList then some .warning
  else none

def annotationMarks : List (List Char) :=
  ["::".toList, " file=".toList, ",line=".toList, ",endLine=".toList, ",title=".toList, "::".toList]

/-- The issue that a line tells of. -/
def readIssue? (line : List Char) : Option Issue :=
  match Text.fields? annotationMarks line with
  | some [_, severity, file, first, last, rule, message] =>
    (severityOf? severity).map fun severity =>
      { severity, rule := String.ofList rule, message := String.ofList (unescape message), file := String.ofList file,
        line := Nat.ofDigitChars 10 first 0, endLine := Nat.ofDigitChars 10 last 0 }
  | _ => none

/-- The issues that a report tells of, line by line. -/
def readReport? (report : String) : Option (List Issue) :=
  (Text.segments '\n' report.toList).dropLast.mapM readIssue?

theorem isFrame_annotationFields (h : IsFramed i) : Text.IsFrame [] (annotationFields i) := by
  have hdigits : ∀ n mark, ',' ∉ mark → Text.EndsBefore (Nat.toDigits 10 n) (',' :: mark) := by
    intro n mark hmark
    refine Text.endsBefore_of_not_infix hmark fun hfound => ?_
    exact not_mem_toDigits (show ','.isDigit = false from rfl) n (hfound.subset List.mem_cons_self)
  have hfirst : Text.EndsBefore [] "::".toList := by decide +kernel
  have hseverity : Text.EndsBefore i.severity.name.toList " file=".toList := by
    cases i.severity <;> decide +kernel
  have hfile : Text.EndsBefore i.file.toList ",line=".toList := Text.endsBefore_of_not_infix (by decide) h.file
  have hline : Text.EndsBefore (Nat.toDigits 10 i.line) ",endLine=".toList := hdigits i.line _ (by decide)
  have hendLine : Text.EndsBefore (Nat.toDigits 10 i.endLine) ",title=".toList := hdigits i.endLine _ (by decide)
  have hrule : Text.EndsBefore i.rule.toList "::".toList := h.rule
  simp only [annotationFields, Text.IsFrame, hfirst, hseverity, hfile, hline, hendLine, hrule]
  decide

/-- An issue can be read back from the line of its annotation. -/
theorem readIssue?_annotationLine (h : IsFramed i) : readIssue? (annotationLine i) = some i := by
  have hfields : Text.fields? annotationMarks (annotationLine i) = some ([] :: (annotationFields i).map Prod.snd) :=
    Text.fields?_framed (isFrame_annotationFields h)
  have hseverity : severityOf? i.severity.name.toList = some i.severity := by
    cases i.severity <;> decide +kernel
  rw [readIssue?, hfields]
  simp [annotationFields, hseverity, unescape_escapeMessage, Nat.ofDigitChars_ten_toDigits]

theorem readReport?_github (h : ∀ i ∈ issues, OnOneLine i ∧ IsFramed i) :
    readReport? (github issues) = some issues := by
  rw [readReport?, segments_github fun i hi => (h i hi).1, List.dropLast_concat]
  induction issues with
  | nil => rfl
  | cons i issues ih =>
    obtain ⟨hi, hissues⟩ := List.forall_mem_cons.1 h
    rw [List.map_cons, List.mapM_cons, readIssue?_annotationLine hi.2, ih hissues]
    rfl

/-- How annotations frame issues. There is one line for each issue if and only if no file and no rule holds a line
feed. Then the lines are those of the issues in their order, and the issues can be read back unless a file or a rule
holds the mark behind it. -/
theorem github_frames_issues (issues : List Issue) :
    ((Text.segments '\n' (github issues).toList).length = issues.length + 1 ↔ ∀ i ∈ issues, OnOneLine i) ∧
    ((∀ i ∈ issues, OnOneLine i) → Text.segments '\n' (github issues).toList =
      issues.map (fun i => (annotate i).toList.dropLast) ++ [[]]) ∧
    ((∀ i ∈ issues, OnOneLine i ∧ IsFramed i) → readReport? (github issues) = some issues ∧
      ∀ others, (∀ i ∈ others, OnOneLine i ∧ IsFramed i) → github others = github issues → others = issues) := by
  refine ⟨?_, fun h => ?_, fun h => ⟨readReport?_github h, fun others hothers heq => ?_⟩⟩
  · rw [Text.length_segments, Nat.add_right_cancel_iff]
    exact (count_github issues).2
  · simp [segments_github h, toList_annotate]
  · have hread := readReport?_github hothers
    rw [heq, readReport?_github h] at hread
    exact (Option.some.inj hread).symm

/-- Two issues whose texts hold marks that are not those behind them, and codes. -/
def markedIssues : List Issue :=
  [{ rule := "a:b,line=", severity := .error, message := "::%0A\n,title=", file := "x::y, line=1.php", line := 1,
     endLine := 20 },
   { rule := "", severity := .warning, message := "", file := "", line := 0, endLine := 0 }]

theorem github_frames_markedIssues : (∀ i ∈ markedIssues, OnOneLine i ∧ IsFramed i) ∧
    (Text.segments '\n' (github markedIssues).toList).length = 3 ∧
    readReport? (github markedIssues) = some markedIssues := by
  have h : ∀ i ∈ markedIssues, OnOneLine i ∧ IsFramed i := by decide +kernel
  obtain ⟨hlength, -, hread⟩ := github_frames_issues markedIssues
  exact ⟨h, hlength.2 fun i hi => (h i hi).1, (hread h).1⟩

/-- A line feed in the name of a file makes two lines of one issue, and an issue with marks in the name of its file
cannot be told from one with marks in its message. -/
theorem github_confuses_issues :
    (∃ i : Issue, i.file = "a\nb.php" ∧ (Text.segments '\n' (github [i]).toList).length = 3) ∧
    ∃ i j : Issue, i.file = "a,line=1,endLine=1,title=R::b" ∧ j.file = "a" ∧ github [i] = github [j] := by
  refine ⟨⟨{ rule := "R", severity := .error, message := "m", file := "a\nb.php", line := 1, endLine := 1 }, rfl, ?_⟩,
    { rule := "R", severity := .error, message := "m", file := "a,line=1,endLine=1,title=R::b", line := 2,
      endLine := 2 },
    { rule := "R", severity := .error, message := "b,line=2,endLine=2,title=R::m", file := "a", line := 1,
      endLine := 1 }, rfl, rfl, ?_⟩
  · decide +kernel
  · decide +kernel

end PhpInspect.Report
