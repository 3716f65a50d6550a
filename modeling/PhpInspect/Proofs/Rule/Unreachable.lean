import PhpInspect.Proofs.Outcome
import PhpInspect.Proofs.Php.DeadEnds
import PhpInspect.Proofs.Php.DocumentOrder
import PhpInspect.Proofs.Rule.Terminators
import PhpInspect.Proofs.Tree.Siblings
import PhpInspect.Rule.Apply

/-! # Unreachable code is code behind a dead end

Read off the places of statements, the rule about unreachable code finds the dead ends of a program: what it reports of
the functions and methods, in their order, are their dead ends in the order of the source.
-/

namespace PhpInspect

open Outline

variable {t : Tree} {i p u : Nat}

theorem Outline.isEmpty_places (i : Nat) (os : List Outline) : (places i os).isEmpty = os.isEmpty := by
  cases os <;> rfl

namespace UnreachableCode

/-- A terminator of a unit that is not the last child. -/
def isDead (t : Tree) (u i : Nat) : Bool :=
  isTerminator (t.kind i) && enclosingUnit t i == some u && !t.isLastChild i

/-- What lies below a unit inside of another does not belong to the other. -/
theorem filter_isDead_below_unit (h : t.WellFormed) (hi : (t.kind i).isUnit = true)
    (hu : enclosingUnit t i = some u) : (t.subtree i).filter (isDead t u) = [] := by
  rw [List.filter_eq_nil_iff]
  intro d hd hdead
  rw [isDead, Bool.and_eq_true, Bool.and_eq_true, beq_iff_eq] at hdead
  rcases h.mem_subtree.1 hd with rfl | hid
  · have hterminator := hdead.1.1
    cases hkind : t.kind d <;> rw [hkind] at hi hterminator <;> cases hi <;> cases hterminator
  · have hle := le_of_enclosingUnit h hi hid hdead.1.2
    have hlt := h.lt_of_mem_ancestors (mem_ancestors_of_enclosingUnit hu).1
    omega

theorem survey_of_holds {label : Label} {children : List Outline} (followed : Bool)
    (h : t.Holds i (.node label children)) : (Outline.node label children).survey followed =
      if (t.kind i).isUnit then .unit (.node label children) (surveyAll false children)
      else if isTerminator (t.kind i) then .terminator followed (.node label children) (surveyAll false children)
      else surveyAll false children := by
  obtain ⟨rfl, -⟩ := h
  rw [survey]
  rfl

mutual

/-- The dead ends of the unit around a node that is laid out as an outline. -/
theorem own_holds (h : t.WellFormed) : ∀ (o : Outline) {i p : Nat} {before behind : List Nat}, t.Holds i o →
    t.children p = before ++ i :: behind → enclosingUnit t i = some u →
    List.Forall₂ t.Holds ((t.subtree i).filter (isDead t u)) (o.survey (!behind.isEmpty)).own
  | .node label children, i, p, before, behind, hholds, hsiblings, hu => by
    have hchildren : t.children i = [] ++ places (i + 1) children := hholds.children_eq
    rw [survey_of_holds _ hholds]
    by_cases hunit : (t.kind i).isUnit = true
    · rw [filter_isDead_below_unit h hunit hu, if_pos hunit]
      exact .nil
    · have hchild : ∀ c, t.parent c = some i → enclosingUnit t c = some u := by
        intro c hc
        rw [enclosingUnit_of_parent h hc, if_neg hunit, hu]
      have hrest := own_holdsAll h children hholds.below hchildren hchild
      rw [if_neg hunit, h.subtree_eq, hchildren, List.nil_append, List.filter_cons, isDead,
        h.isLastChild_eq hsiblings, hu]
      by_cases hterminator : isTerminator (t.kind i) = true
      · rw [if_pos hterminator, hterminator, beq_self_eq_true, Bool.true_and, Bool.true_and]
        cases behind with
        | nil => exact hrest
        | cons c behind => exact .cons hholds hrest
      · rw [if_neg hterminator, if_neg (by simp [hterminator])]
        exact hrest

theorem own_holdsAll (h : t.WellFormed) : ∀ (os : List Outline) {i p : Nat} {before : List Nat}, t.HoldsAll i os →
    t.children p = before ++ places i os → (∀ c, t.parent c = some p → enclosingUnit t c = some u) →
    List.Forall₂ t.Holds (((places i os).flatMap t.subtree).filter (isDead t u)) (surveyAll false os).own
  | [], _, _, _, _, _, _ => .nil
  | o :: os, i, p, before, hholds, hchildren, hu => by
    have hparent : t.parent i = some p := by
      rw [← h.mem_children, hchildren]
      exact List.mem_append_right _ List.mem_cons_self
    have hhead := own_holds h o hholds.1 hchildren (hu i hparent)
    have hchildren' : t.children p = (before ++ [i]) ++ places (i + o.size) os := by
      rw [hchildren, places, List.append_assoc, List.singleton_append]
    have htail := own_holdsAll h os hholds.2 hchildren' hu
    rw [isEmpty_places] at hhead
    rw [places, List.flatMap_cons, List.filter_append, surveyAll, Bool.or_false]
    exact List.rel_append hhead htail

end

/-! ### Units -/

/-- A unit of the tree is laid out as an outline, and its dead ends as others. -/
def HoldsUnit (t : Tree) (u : Nat) (unit : Outline × List Outline) : Prop :=
  t.Holds u unit.1 ∧ List.Forall₂ t.Holds ((t.descendants u).filter (isDead t u)) unit.2

mutual

/-- The units at and below a node that is laid out as an outline. -/
theorem units_holds (h : t.WellFormed) (followed : Bool) : ∀ (o : Outline) {i : Nat}, t.Holds i o →
    List.Forall₂ (HoldsUnit t) ((t.subtree i).filter fun j => (t.kind j).isUnit) (o.survey followed).units
  | .node label children, i, hholds => by
    have hchildren : t.children i = [] ++ places (i + 1) children := hholds.children_eq
    have hrest := units_holdsAll h false children hholds.below
    rw [survey_of_holds _ hholds, h.subtree_eq, hchildren, List.nil_append, List.filter_cons]
    by_cases hunit : (t.kind i).isUnit = true
    · have hown : ∀ c, t.parent c = some i → enclosingUnit t c = some i := by
        intro c hc
        rw [enclosingUnit_of_parent h hc, if_pos hunit]
      have hself := own_holdsAll h children hholds.below hchildren hown
      rw [if_pos hunit, if_pos hunit]
      refine .cons ⟨hholds, ?_⟩ hrest
      rwa [h.descendants_eq_flatMap, hchildren, List.nil_append]
    · rw [if_neg hunit, if_neg hunit]
      split_ifs <;> exact hrest

theorem units_holdsAll (h : t.WellFormed) (followed : Bool) : ∀ (os : List Outline) {i : Nat}, t.HoldsAll i os →
    List.Forall₂ (HoldsUnit t) (((places i os).flatMap t.subtree).filter fun j => (t.kind j).isUnit)
      (surveyAll followed os).units
  | [], _, _ => .nil
  | o :: os, i, hholds => by
    rw [places, List.flatMap_cons, List.filter_append, surveyAll]
    exact List.rel_append (units_holds h (!os.isEmpty || followed) o hholds.1) (units_holdsAll h followed os hholds.2)

end

/-! ### The rule -/

theorem filter_terminators (t : Tree) (u : Nat) :
    (terminators t u).filter (fun i => !t.isLastChild i) = (t.descendants u).filter (isDead t u) := by
  rw [terminators, List.filter_filter]
  apply List.filter_congr
  intro i _
  rw [isDead, Bool.and_comm]

theorem report_structural (t : Tree) (u : Nat) : report t .structural u =
    .ok (((t.descendants u).filter (isDead t u)).map (Rule.unreachableCode.violationAt t)) := by
  have hfound : (terminators t u).filterM (fun i => do return !(← isFinal t .structural u i)) =
      .ok ((terminators t u).filter fun i => !t.isLastChild i) := filterM_eq_filter fun i _ => rfl
  rw [report, hfound, filter_terminators]
  rfl

/-- A method without a body has no terminators. -/
theorem terminators_of_isAbstract (h : t.WellFormed) (hgrammar : t.Grammatical) (hu : t.isAbstract u = true) :
    terminators t u = [] := by
  rw [terminators, List.filter_eq_nil_iff]
  intro i hi hterminator
  have hsignature := hgrammar.isSignature_below_abstract h hu (h.mem_descendants.1 hi)
  rw [Bool.and_eq_true] at hterminator
  replace hterminator := hterminator.1
  cases hkind : t.kind i <;> rw [hkind] at hsignature hterminator <;> cases hsignature <;> cases hterminator

theorem apply_eq_report (h : t.WellFormed) (hgrammar : t.Grammatical) (hu : u ∈ t.units) (o : Options) :
    (Rule.unreachableCode.apply t u o).value = report t (Finality.ofOptions o).value u := by
  rw [Rule.apply.eq_def]
  cases habstract : t.isAbstract u with
  | true =>
    rw [report, terminators_of_isAbstract h hgrammar habstract]
    rfl
  | false =>
    obtain ⟨c, hc⟩ := hgrammar.requireChild_scope (h.mem_units.1 hu) habstract
    simp only [hc]
    rfl

theorem apply_structural (h : t.WellFormed) (hgrammar : t.Grammatical) (hu : u ∈ t.units) {o : Options}
    (ho : (Finality.ofOptions o).value = .structural) : (Rule.unreachableCode.apply t u o).value =
      .ok (((t.descendants u).filter (isDead t u)).map (Rule.unreachableCode.violationAt t)) := by
  rw [apply_eq_report h hgrammar hu, ho, report_structural]

end UnreachableCode

/-! ### Programs -/

namespace Php

variable {source : Source} {o : Options}

/-- The tree shows a unit of a program, and its dead ends in their order. -/
def ShowsUnit (t : Tree) (source : Source) (u : Nat) (unit : Declaration × List Terminator) : Prop :=
  Shows t source .plain unit.1.val.2 u ∧
    List.Forall₂ (fun i e => Shows t source .plain e.val.2 i)
      ((t.descendants u).filter (UnreachableCode.isDead t u)) unit.2

theorem forall₂_showsUnit {us : List Nat} {units : List (Declaration × List Terminator)}
    (h : List.Forall₂ (UnreachableCode.HoldsUnit t) us (units.flatMap fun unit =>
      (unit.1.val.2.outline source .plain).map (·, unit.2.flatMap (·.outlines source)))) :
    List.Forall₂ (ShowsUnit t source) us units := by
  induction units generalizing us with
  | nil =>
    cases h
    exact .nil
  | cons unit units ih =>
    obtain ⟨o, ho, -⟩ := unit.1.exists_outline source
    rw [List.flatMap_cons, ho] at h
    obtain ⟨u, us, ⟨hu, hdead⟩, hus, rfl⟩ := List.forall₂_cons_right_iff.1 h
    exact .cons ⟨⟨o, ho, hu⟩, forall₂_of_flatMap hdead fun e => e.exists_outline source⟩ (ih hus)

theorem forall₂_showsUnit_treeOf (source : Source) (statements : List Stmt) :
    List.Forall₂ (ShowsUnit (treeOf source statements) source) (treeOf source statements).units
      ((Phrase.ofList statements).survey false false).units := by
  have hwf := wellFormed_treeOf source statements
  have hunits := UnreachableCode.units_holdsAll hwf false _ (holdsAll_treeOf source statements)
  rw [← units_treeOf, outlines_eq, (Phrase.ofList statements).surveyed source .plain nofun false] at hunits
  exact forall₂_showsUnit hunits

theorem Shows.label_terminator {e : Terminator} (h : Shows t source .plain e.val.2 i) :
    t.image i = e.word ∧ (t.beginLine i, t.endLine i) = source.lines.linesOf e.val.2.span := by
  obtain ⟨o, ho, hholds⟩ := h
  have hlabel := hholds.label_eq
  obtain ⟨⟨c, statement⟩, he⟩ := e
  cases statement with
  | ret =>
    cases ho
    exact ⟨congrArg Label.image hlabel, congrArg (fun l : Label => (l.beginLine, l.endLine)) hlabel⟩
  | exprStmt s value =>
    cases value with
    | throwing =>
      cases ho
      exact ⟨congrArg Label.image hlabel, congrArg (fun l : Label => (l.beginLine, l.endLine)) hlabel⟩
    | _ => cases he
  | _ => cases he

end Php

namespace UnreachableCode

open Php

/-- The node of a violation shows a terminator of the program, and the violation has its lines and its keyword. -/
def Blames (t : Tree) (source : Source) (v : Violation) (e : Terminator) : Prop :=
  Shows t source .plain e.val.2 v.node ∧
    v = ⟨.unreachableCode, v.node, (source.lines.linesOf e.val.2.span).1, (source.lines.linesOf e.val.2.span).2,
      e.word⟩

/-- What the rule reports of a unit, if it does not fail. -/
def reported (t : Tree) (o : Options) (u : Nat) : Option (List Violation) :=
  (Rule.unreachableCode.apply t u o).value.toOption

/-- The tree shows a unit of the program, and the rule blames its dead ends, one after the other. These are the nodes
for terminators of this unit with a sibling behind them. -/
def ReportsUnit (t : Tree) (source : Source) (o : Options) (u : Nat) (unit : Declaration × List Terminator) : Prop :=
  Shows t source .plain unit.1.val.2 u ∧ ∃ violations, reported t o u = some violations ∧
    List.Forall₂ (Blames t source) violations unit.2 ∧
    violations.map (·.node) = (t.descendants u).filter fun i =>
      isTerminator (t.kind i) && enclosingUnit t i == some u && (t.nextSibling i).isSome

theorem isDead_eq (t : Tree) (u i : Nat) :
    isDead t u i = (isTerminator (t.kind i) && enclosingUnit t i == some u && (t.nextSibling i).isSome) := by
  rw [isDead, Tree.isLastChild, Option.not_isNone]

theorem reportsUnit_of_showsUnit {source : Source} {unit : Declaration × List Terminator} {o : Options}
    (h : t.WellFormed) (hgrammar : t.Grammatical) (hu : u ∈ t.units)
    (ho : (Finality.ofOptions o).value = .structural) (hshows : ShowsUnit t source u unit) :
    ReportsUnit t source o u unit := by
  refine ⟨hshows.1, _, congrArg Except.toOption (apply_structural h hgrammar hu ho), ?_, ?_⟩
  · refine List.forall₂_map_left_iff.2 (hshows.2.imp fun i e he => ⟨he, ?_⟩)
    obtain ⟨hword, hlines⟩ := he.label_terminator
    rw [← hlines, ← hword]
    rfl
  · rw [List.map_map]
    simp only [← isDead_eq]
    exact List.map_id _

/-- What the rule reports of the functions and methods of a program are their dead ends: the tree has a unit for each of
them, and a violation at the node of each dead end, in the order of the source. -/
theorem reported_eq_deadEnds (source : Source) (statements : List Stmt) (o : Options)
    (ho : (Finality.ofOptions o).value = .structural) :
    List.Forall₂ (ReportsUnit (treeOf source statements) source o) (treeOf source statements).units
      ((Phrase.ofList statements).survey false false).units := by
  have hwf := wellFormed_treeOf source statements
  have hgrammar := grammatical_treeOf source statements
  have hshows := forall₂_showsUnit_treeOf source statements
  rw [List.forall₂_iff_zip] at hshows ⊢
  refine ⟨hshows.1, fun {u unit} hmem => ?_⟩
  exact reportsUnit_of_showsUnit hwf hgrammar (List.of_mem_zip hmem).1 ho (hshows.2 hmem)

/-- A function inside another, with dead ends in a case of a closure and in a branch without braces. -/
def nestedDeadEnds : String :=
  "<?php function f($x) { function g() { if (1) throw $x; return 1; echo 2; } g(function () {
    switch (2) { case 1: return 1; break; default: return 2; } }); throw $x; return 3; }"

theorem reported_nestedDeadEnds :
    let source := Source.ofText nestedDeadEnds
    let statements := (Program.ofText nestedDeadEnds).statements
    (Finality.ofOptions (.empty "")).value = .structural ∧
    (((Phrase.ofList statements).survey false false).units.map fun unit =>
      unit.2.map fun e => (e.word, e.val.2.span)) =
        [[("return", ⟨116, 125⟩), ("throw", ⟨158, 167⟩)], [("return", ⟨55, 64⟩)]] ∧
    List.Forall₂ (ReportsUnit (treeOf source statements) source (.empty "")) (treeOf source statements).units
      ((Phrase.ofList statements).survey false false).units := by
  intro source statements
  have hstructural : (Finality.ofOptions (.empty "")).value = .structural := by decide +kernel
  exact ⟨hstructural, by decide +kernel, reported_eq_deadEnds source statements _ hstructural⟩

theorem ReportsUnit.length_reported {source : Source} {o : Options} {unit : Declaration × List Terminator}
    (h : ReportsUnit t source o u unit) : (reported t o u).map (·.length) = some unit.2.length := by
  obtain ⟨-, violations, hreported, hblames, -⟩ := h
  rw [hreported, Option.map_some, hblames.length_eq]

/-- A dead end in a closure that an arm of a `match` gives. -/
def closureInArm : String :=
  "<?php function f($x) { return match ($x) { 1 => function () { return 1; echo 2; } }; }"

/-- The analysis tree hides what stands in a `match`, so that not every dead end of a program is reported. -/
theorem reported_ne_deadEnds_closureInArm :
    let source := Source.ofText closureInArm
    let statements := (Program.ofText closureInArm).statements
    (Finality.ofOptions (.empty "")).value = .structural ∧
    ¬ List.Forall₂ (ReportsUnit (treeOf source statements) source (.empty "")) (treeOf source statements).units
      ((Phrase.ofList statements).survey true false).units := by
  intro source statements
  refine ⟨by decide +kernel, fun h => ?_⟩
  have hcounts : (treeOf source statements).units.map
        (fun u => (reported (treeOf source statements) (.empty "") u).map (·.length)) =
      ((Phrase.ofList statements).survey true false).units.map fun unit => some unit.2.length := by
    rw [← List.forall₂_eq_eq_eq, List.forall₂_map_left_iff, List.forall₂_map_right_iff]
    exact h.imp fun u unit hunit => hunit.length_reported
  exact absurd hcounts (by decide +kernel)

end UnreachableCode

end PhpInspect
