import PhpInspect.Php.Parse.Program
import PhpInspect.Proofs.Php.Nesting

/-! # The order of the analysis tree

The numbers of the nodes are their places in pre-order, so that the nodes below a node are a range of numbers. In this
order the tree has a node for each function, method, variable and parameter of the program, as they are listed.
-/

namespace PhpInspect.Php

open Outline Outlining

/-! ### Numbers -/

section Numbers

variable (source : Source) (statements : List Stmt)

theorem descendants_root_treeOf :
    (treeOf source statements).descendants Tree.root = List.range' 1 (sizeAll (outlines source statements)) := by
  have hwf := wellFormed_treeOf source statements
  rw [hwf.descendants_eq_flatMap, children_root_treeOf, (holdsAll_treeOf source statements).flatMap_subtree hwf]

theorem exists_descendants_treeOf (n : Nat) :
    ∃ count, (treeOf source statements).descendants n = List.range' (n + 1) count := by
  have hwf := wellFormed_treeOf source statements
  by_cases hn : n < (treeOf source statements).size
  · by_cases hroot : n = Tree.root
    · subst hroot
      exact ⟨_, descendants_root_treeOf source statements⟩
    · obtain ⟨o, -, hholds⟩ := exists_holds_treeOf source statements (Nat.one_le_iff_ne_zero.2 hroot) hn
      exact ⟨_, hholds.descendants_eq hwf⟩
  · refine ⟨0, ?_⟩
    rw [hwf.descendants_eq_flatMap, Tree.children_of_size_le (by omega)]
    rfl

end Numbers

/-! ### Nodes for what is mentioned -/

namespace Mentioned

variable {α : Type} {source : Source} {os : List Outline} {ms : List Mention} {test : Kind → Bool}
  {pick : Mention → Option α} {f : α → List Outline}

/-- The nodes for some of what is mentioned, told by their kind. -/
theorem filter_eq (h : Mentioned source os ms) (htest : ∀ kind, test kind = true → isMentionKind kind = true)
    (hpick : ∀ m, (m.outlines source).filter (fun o => test o.label.kind) = (pick m).elim [] f) :
    (preorderAll os).filter (fun o => test o.label.kind) = (ms.filterMap pick).flatMap f := by
  have hsub : (preorderAll os).filter (fun o => test o.label.kind) =
      ((preorderAll os).filter fun o => isMentionKind o.label.kind).filter fun o => test o.label.kind := by
    rw [List.filter_filter]
    refine List.filter_congr fun o _ => ?_
    by_cases ho : test o.label.kind = true
    · simp [ho, htest _ ho]
    · simp [ho]
  rw [hsub, h]
  clear h hsub
  induction ms with
  | nil => rfl
  | cons m ms ih =>
    rw [List.flatMap_cons, List.filter_append, hpick, ih]
    cases hm : pick m <;> simp [hm]

end Mentioned

section Mentions

variable {α : Type} {pick : Mention → Option α} {f : α → List Outline} (source : Source) (statements : List Stmt)

/-- The nodes of some kinds are laid out as what the program mentions, one for one. -/
theorem forall₂_holds_mentions {test : Kind → Bool} (htest : ∀ kind, test kind = true → isMentionKind kind = true)
    (hpick : ∀ m, (m.outlines source).filter (fun o => test o.label.kind) = (pick m).elim [] f) :
    List.Forall₂ (treeOf source statements).Holds
      (((treeOf source statements).descendants Tree.root).filter fun i => test ((treeOf source statements).kind i))
      (((Phrase.ofList statements).mentions.filterMap pick).flatMap f) := by
  have hmentioned := (Phrase.ofList statements).mentioned source .plain
  rw [← outlines_eq] at hmentioned
  rw [descendants_root_treeOf, ← hmentioned.filter_eq htest hpick]
  exact (holdsAll_treeOf source statements).forall₂_filter test

theorem forall₂_of_flatMap {t : Tree} {is : List Nat} {as : List α} (h : List.Forall₂ t.Holds is (as.flatMap f))
    (hf : ∀ a, ∃ o, f a = [o]) : List.Forall₂ (fun i a => ∃ o, f a = [o] ∧ t.Holds i o) is as := by
  induction as generalizing is with
  | nil =>
    cases h
    exact .nil
  | cons a as ih =>
    obtain ⟨o, ho⟩ := hf a
    rw [List.flatMap_cons, ho] at h
    obtain ⟨i, is, hi, his, rfl⟩ := List.forall₂_cons_right_iff.1 h
    exact .cons ⟨o, ho, hi⟩ (ih his)

/-- The units of the tree show the functions and methods of the program. -/
theorem forall₂_shows_units :
    List.Forall₂ (fun u (d : Declaration) => Shows (treeOf source statements) source .plain d.val.2 u)
      (treeOf source statements).units (Phrase.ofList statements).declarations := by
  refine forall₂_of_flatMap (forall₂_holds_mentions source statements ?_ fun m => ?_) fun d => ?_
  · intro kind hkind
    simp [isMentionKind, hkind]
  · cases m with
    | unit d =>
      obtain ⟨o, ho, hkind⟩ := d.exists_outline source
      simp [Mention.outlines, Mention.unit?, ho, hkind]
    | var | param => rfl
  · obtain ⟨o, ho, -⟩ := d.exists_outline source
    exact ⟨o, ho⟩

/-- The images of the nodes for names are the texts of the names. -/
theorem map_image_eq {kind : Kind} {pick : Mention → Option Span} (node : Span → Outline)
    (hkind : isMentionKind kind = true)
    (hpick : ∀ m, (m.outlines source).filter (fun o => o.label.kind == kind) = (pick m).elim [] fun s => [node s])
    (hnode : ∀ s, (node s).label.image = source.text s) :
    ((treeOf source statements).descendantsOfKind Tree.root kind).map (treeOf source statements).image =
      ((Phrase.ofList statements).mentions.filterMap pick).map source.text := by
  have htest : ∀ k : Kind, (k == kind) = true → isMentionKind k = true := fun k hk => by
    rw [beq_iff_eq.1 hk, hkind]
  have hholds := forall₂_of_flatMap (forall₂_holds_mentions source statements htest hpick) fun s => ⟨node s, rfl⟩
  rw [← List.forall₂_eq_eq_eq]
  refine List.rel_map (fun i s hs => ?_) hholds
  obtain ⟨o, ho, hi⟩ := hs
  cases ho
  exact (congrArg Label.image hi.label_eq).trans (hnode s)

/-- Parameters have no variables below them. -/
theorem kind_ne_formalParameters_above_var {i p : Nat} (hi : (treeOf source statements).kind i = .var)
    (hp : p ∈ (treeOf source statements).ancestors i) : (treeOf source statements).kind p ≠ .formalParameters := by
  intro hparameters
  have hsignature := (grammatical_treeOf source statements).isSignature_below (wellFormed_treeOf source statements)
    (.inl (by rw [hparameters]; rfl)) hp
  rw [hi] at hsignature
  cases hsignature

end Mentions

/-! ### The order of a program -/

/-- Lowering adds the nodes of a phrase one after the other, those of a part before those of the part behind it. So
nodes are numbered in pre-order, and the units of the tree are the functions and methods of the program, an outer one
before those inside of it. -/
theorem numbered_in_document_order (source : Source) (statements : List Stmt) :
    (∀ (q : AnyPhrase) (role : Role) (parent : Nat) (t : Tree),
      (q.2.lower source role parent).run t = ((), t.graftAll parent (q.2.outline source role))) ∧
    (treeOf source statements).descendants Tree.root = List.range' 1 ((treeOf source statements).size - 1) ∧
    (∀ n, ∃ count, (treeOf source statements).descendants n = List.range' (n + 1) count) ∧
    List.Forall₂ (fun u (d : Declaration) => Shows (treeOf source statements) source .plain d.val.2 u)
      (treeOf source statements).units (Phrase.ofList statements).declarations ∧
    (treeOf source statements).units.Pairwise (· < ·) ∧
    (∀ d : Declaration, d.val ∈ (Phrase.ofList statements).parts →
      d ∈ (Phrase.ofList statements).declarations ∨ Hidden (Phrase.ofList statements).parts d.val) ∧
    (∀ d ∈ (Phrase.ofList statements).declarations, d.val ∈ (Phrase.ofList statements).parts) ∧
    (InOrder (Phrase.ofList statements).parts → (Phrase.ofList statements).declarations.Pairwise fun a b =>
      a.val.2.span.Precedes b.val.2.span ∨ a.val.2.span.Covers b.val.2.span) := by
  have hroot := descendants_root_treeOf source statements
  refine ⟨fun q => q.2.grafts source, ?_, exists_descendants_treeOf source statements,
    forall₂_shows_units source statements, ?_, fun d hd => Phrase.mem_declarations _ hd,
    fun d hd => Phrase.mem_parts_of_mem_declarations _ hd, InOrder.pairwise_declarations⟩
  · rw [hroot, size_treeOf, Nat.add_sub_cancel_left]
  · rw [Tree.units, hroot]
    exact List.Pairwise.filter _ (List.pairwise_lt_range' _)

/-- A function and a method of an anonymous class inside of a function, which has a heredoc. -/
def unitsInUnits : String :=
  "<?php function f($x) { function g() {} echo <<<A
$x
A;
new class { function m() {} }; }"

theorem numbered_in_document_order_unitsInUnits :
    InOrder (Phrase.ofList (Program.ofText unitsInUnits).statements).parts ∧
    (treeOf (Source.ofText unitsInUnits) (Program.ofText unitsInUnits).statements).units = [2, 7, 16] ∧
    (Phrase.ofList (Program.ofText unitsInUnits).statements).declarations.map (fun d => d.val.2.span) =
      [⟨6, 87⟩, ⟨23, 38⟩, ⟨67, 82⟩] ∧
    (Phrase.ofList (Program.ofText unitsInUnits).statements).declarations.Pairwise fun a b =>
      a.val.2.span.Precedes b.val.2.span ∨ a.val.2.span.Covers b.val.2.span := by
  have hlists : InOrder (Phrase.ofList (Program.ofText unitsInUnits).statements).parts ∧
      (treeOf (Source.ofText unitsInUnits) (Program.ofText unitsInUnits).statements).units = [2, 7, 16] ∧
      (Phrase.ofList (Program.ofText unitsInUnits).statements).declarations.map (fun d => d.val.2.span) =
        [⟨6, 87⟩, ⟨23, 38⟩, ⟨67, 82⟩] := by decide +kernel
  have horder := numbered_in_document_order (Source.ofText unitsInUnits) (Program.ofText unitsInUnits).statements
  exact ⟨hlists.1, hlists.2.1, hlists.2.2, horder.2.2.2.2.2.2.2 hlists.1⟩

/-- The variables that a program names outright, one node for each, apart from its parameters. -/
theorem variables_in_source_order (source : Source) (statements : List Stmt) :
    ((treeOf source statements).descendantsOfKind Tree.root .var).map (treeOf source statements).image =
      (Phrase.ofList statements).variableNames.map source.text ∧
    ((treeOf source statements).descendantsOfKind Tree.root .variableDeclarator).map (treeOf source statements).image =
      (Phrase.ofList statements).parameterNames.map source.text ∧
    (∀ i, (treeOf source statements).kind i = .var →
      ∀ p ∈ (treeOf source statements).ancestors i, (treeOf source statements).kind p ≠ .formalParameters) ∧
    (∀ q ∈ (Phrase.ofList statements).parts, ∀ s, .var s ∈ q.2.ownMentions →
      s ∈ (Phrase.ofList statements).variableNames ∨ Hidden (Phrase.ofList statements).parts q) ∧
    (∀ s ∈ (Phrase.ofList statements).variableNames,
      ∃ q ∈ (Phrase.ofList statements).parts, .var s ∈ q.2.ownMentions) ∧
    (InOrder (Phrase.ofList statements).parts → (Phrase.ofList statements).variableNames.Pairwise Span.Precedes) := by
  refine ⟨map_image_eq source statements (variableNode source) rfl (fun m => ?_) fun _ => rfl,
    map_image_eq source statements (declaratorNode source) rfl (fun m => ?_) fun _ => rfl,
    fun i hi p hp => kind_ne_formalParameters_above_var source statements hi hp,
    fun q hq s hs => Phrase.mem_variableNames _ hq hs, fun s hs => Phrase.exists_of_mem_variableNames _ hs,
    InOrder.pairwise_variableNames⟩
  · cases m with
    | unit d => exact d.filter_outline source rfl
    | var | param => rfl
  · cases m with
    | unit d => exact d.filter_outline source rfl
    | var | param => rfl

/-- Variables in strings, a static statement, a loop and a `use` clause, and one as a selector. -/
def variablesEverywhere : String :=
  "<?php echo \"$x\", <<<A
$y
A;
static $s; foreach ($s as $v) {} return function ($q) use (&$v) { return $q->$n; };"

theorem variables_in_source_order_variablesEverywhere :
    InOrder (Phrase.ofList (Program.ofText variablesEverywhere).statements).parts ∧
    ((treeOf (Source.ofText variablesEverywhere) (Program.ofText variablesEverywhere).statements).descendantsOfKind
        Tree.root .var).map (treeOf (Source.ofText variablesEverywhere)
          (Program.ofText variablesEverywhere).statements).image =
      ["$x", "$y", "$s", "$s", "$v", "$v", "$q"] ∧
    (Phrase.ofList (Program.ofText variablesEverywhere).statements).variableNames.Pairwise Span.Precedes := by
  have hlists : InOrder (Phrase.ofList (Program.ofText variablesEverywhere).statements).parts ∧
      (Phrase.ofList (Program.ofText variablesEverywhere).statements).variableNames.map
        (Source.ofText variablesEverywhere).text = ["$x", "$y", "$s", "$s", "$v", "$v", "$q"] := by decide +kernel
  have horder := variables_in_source_order (Source.ofText variablesEverywhere)
    (Program.ofText variablesEverywhere).statements
  exact ⟨hlists.1, horder.1.trans hlists.2, horder.2.2.2.2.2 hlists.1⟩

end PhpInspect.Php
