import PhpInspect.Proofs.Php.LineRanges
import PhpInspect.Proofs.Rule.Ownership
import PhpInspect.Proofs.Rule.Totality

/-! # The lines of violations

A violation stands on the lines of a node, so that what the rules report of a text, and the issues made of it, lie on
lines of the text.
-/

namespace PhpInspect

variable {t : Tree} {u i : Nat}

theorem Rule.lt_size_of_mem_candidates (h : t.WellFormed) {r : Rule} {o : Options} (hi : i ∈ r.candidates t o u) :
    i < t.size := by
  apply Tree.lt_size_of_kind
  cases r with
  | undefinedVariable =>
    obtain ⟨f, -, hi⟩ := List.mem_flatMap.1 hi
    exact UndefinedVariable.kind_ne_program_of_mem_locals h hi
  | unreachableCode =>
    exact UnreachableCode.kind_ne_program_of_isTerminator ((UnreachableCode.mem_terminators h).1 hi).1

/-- An issue lies on the lines of its violation. -/
theorem Analyzer.isLineRange_violationIssue {count : Nat} {v : Violation} (h : IsLineRange count v.line v.endLine)
    (file : String) : IsLineRange count (violationIssue file v).line (violationIssue file v).endLine := by
  have hend : (violationIssue file v).endLine = v.endLine := Nat.max_eq_left h.2.1
  rw [hend]
  exact h

namespace Php

variable {text : String} {statements : List Stmt}

theorem isLineRange_of_mem_apply (h : Orderly (Phrase.ofList statements).parts) {r : Rule} {o : Options}
    {violations : List Violation}
    (hok : (r.apply (treeOf (Source.ofText text) statements) u o).value = .ok violations) {v : Violation}
    (hv : v ∈ violations) : IsLineRange (Source.ofText text).lines.lineCount v.line v.endLine := by
  obtain ⟨found, hfound, rfl⟩ := Rule.exists_of_apply hok
  obtain ⟨i, hi, rfl⟩ := List.mem_map.1 hv
  have hsize := Rule.lt_size_of_mem_candidates (wellFormed_treeOf (Source.ofText text) statements) (hfound.subset hi)
  exact (Grounds.ofText h False.elim).isLineRange hsize

/-- Nodes, violations and issues lie on lines of the text, and nodes on the lines of their parents. -/
theorem line_ranges_of_programs (text : String) (statements : List Stmt)
    (h : Orderly (Phrase.ofList statements).parts) :
    (∀ i < (treeOf (Source.ofText text) statements).size,
      IsLineRange (Source.ofText text).lines.lineCount ((treeOf (Source.ofText text) statements).beginLine i)
        ((treeOf (Source.ofText text) statements).endLine i)) ∧
    (∀ (r : Rule) (u : Nat) (o : Options) (violations : List Violation),
      (r.apply (treeOf (Source.ofText text) statements) u o).value = .ok violations → ∀ v ∈ violations,
        IsLineRange (Source.ofText text).lines.lineCount v.line v.endLine ∧
        ∀ file, IsLineRange (Source.ofText text).lines.lineCount (Analyzer.violationIssue file v).line
          (Analyzer.violationIssue file v).endLine) ∧
    (∀ (a : Analyzer) (file : String), ∀ issue ∈ (a.checkTree file (treeOf (Source.ofText text) statements)).value,
      IsLineRange (Source.ofText text).lines.lineCount issue.line issue.endLine) ∧
    (Nested (Phrase.ofList statements).parts → ∀ i p, (treeOf (Source.ofText text) statements).parent i = some p →
      (treeOf (Source.ofText text) statements).beginLine p ≤ (treeOf (Source.ofText text) statements).beginLine i ∧
      (treeOf (Source.ofText text) statements).endLine i ≤ (treeOf (Source.ofText text) statements).endLine p) := by
  have hwf := wellFormed_treeOf (Source.ofText text) statements
  have hgrammar := grammatical_treeOf (Source.ofText text) statements
  refine ⟨fun i hi => (Grounds.ofText h False.elim).isLineRange hi, ?_, ?_, ?_⟩
  · intro r u o violations hok v hv
    have hlines := isLineRange_of_mem_apply h hok hv
    exact ⟨hlines, Analyzer.isLineRange_violationIssue hlines⟩
  · intro a file issue hissue
    simp only [Analyzer.checkTree, Logged.value_collect, List.mem_flatMap] at hissue
    obtain ⟨u, hu, r, -, hissue⟩ := hissue
    obtain ⟨violations, hok⟩ := r.succeeds_apply hwf hgrammar hu (a.options r)
    rw [Analyzer.value_checkUnit_of_ok hok] at hissue
    obtain ⟨v, hv, rfl⟩ := List.mem_map.1 hissue
    exact Analyzer.isLineRange_violationIssue (isLineRange_of_mem_apply h hok hv) file
  · intro hnested i p hp
    exact (Grounds.ofText h fun _ : True => hnested).encloses_parent trivial hp

/-- A branch between a colon and a keyword, and a case whose last statement goes on to another line. -/
def branchAndCase : String :=
  "<?php if (1):
    return 2;
    echo 3;
  endif;
  switch (4) { case 5: return
    6; }"

theorem line_ranges_of_branchAndCase :
    Orderly (Phrase.ofList (Program.ofText branchAndCase).statements).parts ∧
    Nested (Phrase.ofList (Program.ofText branchAndCase).statements).parts ∧
    11 < (treeOf (Source.ofText branchAndCase) (Program.ofText branchAndCase).statements).size ∧
    (treeOf (Source.ofText branchAndCase) (Program.ofText branchAndCase).statements).kind 11 = .switchLabel ∧
    (treeOf (Source.ofText branchAndCase) (Program.ofText branchAndCase).statements).parent 13 = some 11 ∧
    IsLineRange (Source.ofText branchAndCase).lines.lineCount
      ((treeOf (Source.ofText branchAndCase) (Program.ofText branchAndCase).statements).beginLine 11)
      ((treeOf (Source.ofText branchAndCase) (Program.ofText branchAndCase).statements).endLine 11) ∧
    (treeOf (Source.ofText branchAndCase) (Program.ofText branchAndCase).statements).endLine 13 ≤
      (treeOf (Source.ofText branchAndCase) (Program.ofText branchAndCase).statements).endLine 11 := by
  have hlists : Orderly (Phrase.ofList (Program.ofText branchAndCase).statements).parts ∧
      Nested (Phrase.ofList (Program.ofText branchAndCase).statements).parts ∧
      11 < (treeOf (Source.ofText branchAndCase) (Program.ofText branchAndCase).statements).size ∧
      (treeOf (Source.ofText branchAndCase) (Program.ofText branchAndCase).statements).kind 11 = .switchLabel ∧
      (treeOf (Source.ofText branchAndCase) (Program.ofText branchAndCase).statements).parent 13 = some 11 := by
    decide +kernel
  obtain ⟨horderly, hnested, hsize, hkind, hparent⟩ := hlists
  have hlines := line_ranges_of_programs branchAndCase (Program.ofText branchAndCase).statements horderly
  exact ⟨horderly, hnested, hsize, hkind, hparent, hlines.1 11 hsize, (hlines.2.2.2 hnested 13 11 hparent).2⟩

end Php

end PhpInspect
