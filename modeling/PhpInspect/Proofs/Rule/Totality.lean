import PhpInspect.Analysis
import PhpInspect.Proofs.Outcome
import PhpInspect.Proofs.Php.AnalysisTree
import PhpInspect.Proofs.Rule.Frames
import PhpInspect.Proofs.Rule.Terminators

/-! # Rules never fail on programs

A rule fails when a node lacks a parent or a child that it needs. Parents are only missing at the root, which no rule
climbs to, and in the analysis tree of a program no child is missing. So analysing a text never ends in an internal
error, however the text may look.
-/

namespace PhpInspect

variable {t : Tree} {i v p u owner block : Nat}

namespace Tree.WellFormed

theorem parentOf_eq (h : t.WellFormed) (hk : t.kind i ≠ .program) :
    ∃ p, t.parent i = some p ∧ t.parentOf i = .ok p := by
  obtain ⟨p, hp⟩ := h.exists_parent_of_kind hk
  exact ⟨p, hp, parentOf_eq_ok_iff.2 hp⟩

theorem succeeds_parentOf (h : t.WellFormed) (hk : t.kind i ≠ .program) : Succeeds (t.parentOf i) := by
  obtain ⟨p, -, hp⟩ := h.parentOf_eq hk
  exact ⟨p, hp⟩

end Tree.WellFormed

theorem Tree.succeeds_parentOf_of_mem_ancestors (hu : u ∈ t.ancestors i) : Succeeds (t.parentOf i) := by
  cases hp : t.parent i with
  | none =>
    rw [ancestors_of_parent_none hp] at hu
    cases hu
  | some p => exact ⟨p, parentOf_eq_ok_iff.2 hp⟩

/-! ### Undefined variables -/

namespace UndefinedVariable

theorem succeeds_isElementWriteWithin (h : t.WellFormed) (n : Nat) (hk : t.kind i ≠ .program) :
    Succeeds (isElementWriteWithin t n i) := by
  induction n generalizing i with
  | zero => exact succeeds_pure false
  | succ n ih =>
    rw [isElementWriteWithin]
    refine (h.succeeds_parentOf hk).bind fun p _ => ?_
    split
    · next hp => exact .ite (fun _ => ih (by rw [hp]; decide)) fun _ => succeeds_pure false
    · exact succeeds_pure _
    · exact succeeds_pure _
    · exact succeeds_pure _

theorem succeeds_isDefinition (h : t.WellFormed) (hk : t.kind v ≠ .program) : Succeeds (isDefinition t v) := by
  rw [isDefinition]
  refine (h.succeeds_parentOf hk).bind fun p _ => ?_
  split
  · exact succeeds_pure _
  · exact succeeds_pure _
  · exact succeeds_pure _
  · exact succeeds_pure _
  · exact succeeds_pure _
  · exact succeeds_pure _
  · split
    · exact .ite (fun _ => succeeds_pure _) fun _ => succeeds_pure _
    · exact succeeds_pure _
  · next hp =>
    exact .ite (fun _ => succeeds_isElementWriteWithin h _ (by rw [hp]; decide)) fun _ => succeeds_pure _
  · exact succeeds_pure _

theorem succeeds_isPregMatchOutput (h : t.WellFormed) (hk : t.kind v ≠ .program) :
    Succeeds (isPregMatchOutput t v) := by
  rw [isPregMatchOutput]
  refine (h.succeeds_parentOf hk).bind fun arguments _ => ?_
  refine .ite (fun _ => succeeds_pure _) fun harguments => ?_
  have hkind : t.kind arguments ≠ .program := by
    intro hprogram
    simp [hprogram] at harguments
  refine (h.succeeds_parentOf hkind).bind fun call _ => ?_
  refine .ite (fun _ => succeeds_pure _) fun _ => ?_
  exact .ite (fun _ => succeeds_pure _) fun _ => succeeds_pure _

theorem kind_ne_program_of_mem_locals (h : t.WellFormed) (hv : v ∈ locals t owner) : t.kind v ≠ .program := by
  have hlocal := ((mem_locals h).1 hv).1
  simp only [Tree.isLocalVariable, Bool.and_eq_true, beq_iff_eq] at hlocal
  rw [hlocal.1]
  decide

/-- A frame with a list of parameters can be looked at. -/
theorem succeeds_undefinedIn (h : t.WellFormed) (settings : Settings)
    (hparameters : ∃ c, t.requireChild owner .formalParameters = .ok c) :
    Succeeds (undefinedIn t settings owner) := by
  obtain ⟨list, hlist⟩ := hparameters
  have hnames : Succeeds (parameterNames t owner) := by
    rw [parameterNames, hlist]
    exact succeeds_pure _
  rw [undefinedIn]
  refine hnames.bind fun parameters _ => ?_
  have hkind : ∀ v ∈ (firstOfImage t [] (locals t owner)).filter fun v =>
      !(parameters ++ capturedNames t owner).contains (t.image v), t.kind v ≠ .program := by
    intro v hv
    exact kind_ne_program_of_mem_locals h ((firstOfImage_sublist [] _).subset (List.mem_of_mem_filter hv))
  refine Succeeds.bind (.filterM fun v hv => ?_) fun undefined hundefined => ?_
  · exact (succeeds_isDefinition h (hkind v hv)).bind fun _ _ => succeeds_pure _
  · refine .ite (fun _ => .filterM fun v hv => ?_) fun _ => succeeds_pure _
    have hv' := (sublist_of_filterM hundefined).subset hv
    exact (succeeds_isPregMatchOutput h (hkind v hv')).bind fun _ _ => succeeds_pure _

theorem succeeds_report (h : t.WellFormed) (hgrammar : t.Grammatical) (settings : Settings)
    (hu : (t.kind u).isCallable = true) : Succeeds (report t settings u) := by
  rw [report]
  refine Succeeds.bind (.mapM fun frame hframe => ?_) fun _ _ => succeeds_pure _
  refine succeeds_undefinedIn h settings (hgrammar.requireChild_formalParameters ?_)
  rcases closure_of_mem_framesWithin h hframe with rfl | hclosure
  · exact hu
  · rw [hclosure]
    rfl

end UndefinedVariable

/-! ### Unreachable code -/

namespace UnreachableCode

theorem kind_ne_program_of_isTerminator (hi : isTerminator (t.kind i) = true) : t.kind i ≠ .program := by
  intro hprogram
  rw [hprogram] at hi
  cases hi

theorem succeeds_anyOf {tests : List (Except RuleError Bool)} (h : ∀ test ∈ tests, Succeeds test) :
    Succeeds (anyOf tests) := by
  induction tests with
  | nil => exact succeeds_pure _
  | cons test tests ih =>
    rw [anyOf]
    refine (h test List.mem_cons_self).bind fun holds _ => ?_
    exact .ite (fun _ => succeeds_pure _) fun _ => ih fun other hother => h other (List.mem_cons_of_mem _ hother)

theorem succeeds_above (h : t.WellFormed) {kind : Kind} (hkind : kind ≠ .program)
    {test : Nat → Except RuleError Bool}
    (htest : t.kind block = kind → ∀ p, t.parent block = some p → Succeeds (test p)) :
    Succeeds (above t kind block test) := by
  rw [above]
  refine .ite (fun hblock => ?_) fun _ => succeeds_pure _
  rw [beq_iff_eq] at hblock
  obtain ⟨p, hparent, heq⟩ := h.parentOf_eq (i := block) (by rw [hblock]; exact hkind)
  rw [heq]
  exact htest hblock p hparent

theorem succeeds_endsOuter {attempt : Nat} (h : Succeeds (t.parentOf attempt)) : Succeeds (endsOuter t attempt) :=
  h.bind fun _ _ => succeeds_pure _

theorem succeeds_endsTry (h : t.WellFormed) : Succeeds (endsTry t block i) := by
  refine succeeds_above h (by decide) fun _ attempt _ => ?_
  refine .ite (fun _ => succeeds_pure _) fun hattempt => ?_
  refine .ite (fun _ => succeeds_pure _) fun _ => ?_
  refine succeeds_endsOuter (h.succeeds_parentOf ?_)
  rw [kind_eq_of_not_bne_or hattempt]
  decide

/-- A `finally` clause below a unit belongs to a statement that is not the root. -/
theorem succeeds_endsFinally (h : t.WellFormed) (hp : t.parent i = some block) (hu : u ∈ t.ancestors i)
    (hunit : (t.kind u).isUnit = true) : Succeeds (endsFinally t block i) := by
  refine succeeds_above h (by decide) fun hblock final hfinal => ?_
  refine .ite (fun _ => succeeds_pure _) fun htest => ?_
  have hkind : t.kind final = .finallyStatement := kind_eq_of_not_bne_or htest
  have hblock' : u ∈ t.ancestors block := h.mem_ancestors_of_parent hunit hu hp (by rw [hblock]; rfl)
  have hfinal' : u ∈ t.ancestors final := h.mem_ancestors_of_parent hunit hblock' hfinal (by rw [hkind]; rfl)
  obtain ⟨attempt, hattempt, heq⟩ := h.parentOf_eq (i := final) (by rw [hkind]; decide)
  rw [heq]
  apply succeeds_endsOuter
  cases hside : (t.kind attempt).isUnit with
  | true => exact h.succeeds_parentOf (Tree.kind_ne_program_of_isUnit hside)
  | false => exact Tree.succeeds_parentOf_of_mem_ancestors (h.mem_ancestors_of_parent hunit hfinal' hattempt hside)

theorem succeeds_endsItsBlock (h : t.WellFormed) (hi : isTerminator (t.kind i) = true)
    (hu : enclosingUnit t i = some u) : Succeeds (endsItsBlock t u i) := by
  obtain ⟨habove, hunit⟩ := mem_ancestors_of_enclosingUnit hu
  obtain ⟨block, hblock, heq⟩ := h.parentOf_eq (kind_ne_program_of_isTerminator hi)
  rw [endsItsBlock, heq]
  apply succeeds_anyOf
  intro test htest
  simp only [List.mem_cons, List.not_mem_nil, or_false] at htest
  rcases htest with rfl | rfl | rfl | rfl | rfl | rfl | rfl
  · exact succeeds_pure _
  · exact succeeds_above h (by decide) fun _ _ _ => succeeds_pure _
  · exact succeeds_above h (by decide) fun _ _ _ => succeeds_pure _
  · exact succeeds_endsTry h
  · exact succeeds_above h (by decide) fun _ _ _ => succeeds_pure _
  · exact succeeds_endsFinally h hblock habove hunit
  · exact succeeds_above h (by decide) fun _ _ _ => succeeds_pure _

theorem succeeds_report (h : t.WellFormed) (finality : Finality) (u : Nat) : Succeeds (report t finality u) := by
  rw [report]
  refine Succeeds.bind (.filterM fun i hi => ?_) fun _ _ => succeeds_pure _
  obtain ⟨hterminator, hunit⟩ := (mem_terminators h).1 hi
  refine Succeeds.bind ?_ fun _ _ => succeeds_pure _
  cases finality with
  | structural => exact succeeds_pure _
  | lines => exact succeeds_endsItsBlock h hterminator hunit

end UnreachableCode

/-! ### Rules and analyses -/

theorem Rule.succeeds_apply (h : t.WellFormed) (hgrammar : t.Grammatical) (hu : u ∈ t.units) (r : Rule)
    (o : Options) : Succeeds (r.apply t u o).value := by
  have hunit := h.mem_units.1 hu
  rw [Rule.apply.eq_def]
  cases habstract : t.isAbstract u with
  | true => exact ⟨[], rfl⟩
  | false =>
    cases r with
    | undefinedVariable =>
      exact UndefinedVariable.succeeds_report h hgrammar _ (Kind.isCallable_of_isUnit hunit)
    | unreachableCode =>
      obtain ⟨c, hc⟩ := hgrammar.requireChild_scope hunit habstract
      simp only [hc]
      exact UnreachableCode.succeeds_report h _ u

namespace Analyzer

variable {a : Analyzer} {file : String} {source : Source} {program : Php.Program} {issue : Issue} {r : Rule}

/-- The issues that a rule raises are those of its violations. -/
theorem value_checkUnit_of_ok {violations : List Violation} (h : (r.apply t u (a.options r)).value = .ok violations) :
    (a.checkUnit file t u r).value = violations.map (violationIssue file) := by
  rw [checkUnit, Logged.value_bind, h]
  rfl

theorem rule_of_mem_checkTree (h : t.WellFormed) (hgrammar : t.Grammatical)
    (hissue : issue ∈ (a.checkTree file t).value) : ∃ r : Rule, issue.rule = r.id := by
  simp only [checkTree, Logged.value_collect, List.mem_flatMap] at hissue
  obtain ⟨u, hu, r, -, hissue⟩ := hissue
  obtain ⟨violations, hok⟩ := r.succeeds_apply h hgrammar hu (a.options r)
  rw [value_checkUnit_of_ok hok] at hissue
  obtain ⟨violation, -, rfl⟩ := List.mem_map.1 hissue
  exact ⟨violation.rule, rfl⟩

theorem rule_of_mem_analyzeProgram (hissue : issue ∈ (a.analyzeProgram file source program).value) :
    issue.rule = Issue.parseError ∨ ∃ r : Rule, issue.rule = r.id := by
  have hwf := Php.wellFormed_treeOf source program.statements
  have hgrammar := Php.grammatical_treeOf source program.statements
  rw [analyzeProgram] at hissue
  split at hissue
  · exact .inr (rule_of_mem_checkTree hwf hgrammar hissue)
  · simp only [Logged.value_bind, Logged.value_pure, List.mem_cons] at hissue
    rcases hissue with rfl | hissue
    · exact .inl rfl
    · exact .inr (rule_of_mem_checkTree hwf hgrammar hissue)

theorem ne_internalError_of_mem_analyzeProgram (hissue : issue ∈ (a.analyzeProgram file source program).value) :
    issue.rule ≠ Issue.internalError := by
  rcases rule_of_mem_analyzeProgram hissue with hrule | ⟨r, hrule⟩
  · rw [hrule]
    decide
  · rw [hrule]
    cases r <;> decide

end Analyzer

/-- Every rule gives a result on every function and method of a program, whatever its options, and the analysis of
a program never ends in an internal error. So it is, in particular, with what can be read of a text. -/
theorem rules_total_on_programs :
    (∀ (source : Source) (statements : List Php.Stmt) (r : Rule) (o : Options),
      ∀ u ∈ (Php.treeOf source statements).units,
        ∃ violations, (r.apply (Php.treeOf source statements) u o).value = .ok violations) ∧
    (∀ (a : Analyzer) (file : String) (source : Source) (program : Php.Program),
      ∀ issue ∈ (a.analyzeProgram file source program).value, issue.rule ≠ Issue.internalError) ∧
    ∀ (a : Analyzer) (file text : String), ∀ issue ∈ (a.analyzeText file text).value,
      issue.rule ≠ Issue.internalError := by
  refine ⟨?_, ?_, ?_⟩
  · intro source statements r o u hu
    exact r.succeeds_apply (Php.wellFormed_treeOf source statements) (Php.grammatical_treeOf source statements) hu o
  · intro a file source program issue hissue
    exact Analyzer.ne_internalError_of_mem_analyzeProgram hissue
  · intro a file text issue hissue
    exact Analyzer.ne_internalError_of_mem_analyzeProgram hissue

/-- A function with a closure that takes a name by reference, in a file that stops parsing behind it. -/
def brokenFile : String := "<?php function f($a) { return function () use (&$b) { throw $c; return; }; } if ("

theorem rules_total_on_brokenFile :
    (2 ∈ (Php.treeOf (Source.ofText brokenFile) (Php.Program.ofText brokenFile).statements).units ∧
      ∃ violations, (Rule.undefinedVariable.apply
        (Php.treeOf (Source.ofText brokenFile) (Php.Program.ofText brokenFile).statements) 2 (.empty "")).value =
          .ok violations) ∧
    ((⟨"UnreachableCode", .warning, "The code after this 'throw' statement is unreachable.", "a.php", 1, 1⟩ : Issue) ∈
        ((⟨⟨none, [], [], []⟩, Rule.all, fun _ => .empty ""⟩ : Analyzer).analyzeText "a.php" brokenFile).value ∧
      "UnreachableCode" ≠ Issue.internalError) := by
  refine ⟨⟨by decide +kernel, ?_⟩, by decide +kernel, ?_⟩
  · exact rules_total_on_programs.1 _ _ .undefinedVariable (.empty "") 2 (by decide +kernel)
  · exact rules_total_on_programs.2.2 ⟨⟨none, [], [], []⟩, Rule.all, fun _ => .empty ""⟩ "a.php" brokenFile
      ⟨"UnreachableCode", .warning, "The code after this 'throw' statement is unreachable.", "a.php", 1, 1⟩
      (by decide +kernel)

end PhpInspect
