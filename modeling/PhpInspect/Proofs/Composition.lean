import PhpInspect.Analysis
import PhpInspect.Proofs.Rule.Renumbering

/-! # Programs one after the other

The analysis tree of a program holds the trees of its parts side by side, the numbers of the second shifted. Rules see
nothing but the functions and methods that they look at, so the issues of a program are those of its parts in order.
-/

namespace PhpInspect

variable {t t' : Tree} {k u : Nat}

/-! ### The parts of a program -/

namespace Php

open Outline

variable (source : Source) (first second : List Stmt)

theorem holdsAll_treeOf_append : (treeOf source (first ++ second)).HoldsAll 1 (outlines source first) ∧
    (treeOf source (first ++ second)).HoldsAll (1 + sizeAll (outlines source first)) (outlines source second) := by
  have hholds := holdsAll_treeOf source (first ++ second)
  rw [outlines_append] at hholds
  exact hholds.of_append

theorem size_treeOf_append : (treeOf source (first ++ second)).size =
    1 + sizeAll (outlines source first) + sizeAll (outlines source second) := by
  rw [size_treeOf, outlines_append, sizeAll_append, Nat.add_assoc]

theorem embeds_first : (treeOf source first).Embeds (treeOf source (first ++ second)) 0 := by
  refine Tree.HoldsAll.embeds (wellFormed_treeOf _ _) (wellFormed_treeOf _ _) (size_treeOf _ _) ?_
    (holdsAll_treeOf _ _) (holdsAll_treeOf_append source first second).1
  rw [size_treeOf, size_treeOf_append]
  omega

theorem embeds_second :
    (treeOf source second).Embeds (treeOf source (first ++ second)) (sizeAll (outlines source first)) := by
  refine Tree.HoldsAll.embeds (wellFormed_treeOf _ _) (wellFormed_treeOf _ _) (size_treeOf _ _) ?_
    (holdsAll_treeOf _ _) (holdsAll_treeOf_append source first second).2
  rw [size_treeOf, size_treeOf_append]
  omega

end Php

theorem Tree.Embeds.units_below (e : t.Embeds t' k) {roots : List Nat} (hroots : ∀ i ∈ roots, t.Inner i) :
    ((roots.map (· + k)).flatMap t'.subtree).filter (fun i => (t'.kind i).isUnit) =
      ((roots.flatMap t.subtree).filter fun i => (t.kind i).isUnit).map (· + k) := by
  have hsubtree : (roots.map (· + k)).flatMap t'.subtree = (roots.flatMap t.subtree).map (· + k) := by
    rw [List.flatMap_map, List.map_flatMap]
    exact List.flatMap_congr fun i hi => e.subtree (hroots i hi)
  rw [hsubtree]
  apply filter_map_congr
  intro d hd
  obtain ⟨i, hi, hd⟩ := List.mem_flatMap.1 hd
  rw [e.kind (e.inner.inner_of_mem_subtree (hroots i hi) hd)]

namespace Php

open Outline

variable (source : Source) (first second : List Stmt)

theorem inner_of_mem_places {statements : List Stmt} {i : Nat} (hi : i ∈ places 1 (outlines source statements)) :
    (treeOf source statements).Inner i := by
  rw [← children_root_treeOf] at hi
  exact (wellFormed_treeOf source statements).inner_of_mem_children hi

/-- The functions and methods of two parts, one after the other. -/
theorem units_append : (treeOf source (first ++ second)).units =
    (treeOf source first).units ++ (treeOf source second).units.map (· + sizeAll (outlines source first)) := by
  have hfirst := (embeds_first source first second).units_below fun i hi => inner_of_mem_places source hi
  have hsecond := (embeds_second source first second).units_below fun i hi => inner_of_mem_places source hi
  simp only [Nat.add_zero, List.map_id'] at hfirst
  rw [units_treeOf, outlines_append, places_append, places_add, List.flatMap_append, List.filter_append, hfirst,
    hsecond, units_treeOf, units_treeOf]

end Php

/-! ### Issues -/

namespace Logged

variable {α β γ : Type}

theorem collect_congr {f g : α → Logged (List β)} {as : List α} (h : ∀ a ∈ as, f a = g a) :
    collect f as = collect g as := by
  induction as with
  | nil => rfl
  | cons a as ih =>
    rw [collect, collect, h a List.mem_cons_self, ih fun b hb => h b (List.mem_cons_of_mem _ hb)]

theorem collect_map (f : α → Logged (List β)) (g : γ → α) (cs : List γ) :
    collect f (cs.map g) = collect (f ∘ g) cs := by
  induction cs with
  | nil => rfl
  | cons c cs ih => rw [List.map_cons, collect, collect, ih, Function.comp_apply]

theorem collect_append (f : α → Logged (List β)) (as bs : List α) :
    collect f (as ++ bs) = do
      let found ← collect f as
      let others ← collect f bs
      return found ++ others := by
  induction as with
  | nil => simp [collect, bind, pure, -value_collect]
  | cons a as ih => simp [collect, ih, bind, pure, -value_collect]

end Logged

namespace Analyzer

variable (a : Analyzer) (file : String)

theorem checkUnit_shift (e : t.Embeds t' k) (hgrammar : t.Grammatical) (hu : (t.kind u).isUnit = true) (r : Rule) :
    a.checkUnit file t' (u + k) r = a.checkUnit file t u r := by
  rw [checkUnit, checkUnit, r.apply_shift e hgrammar hu, e.image (e.inner.inner_of_isUnit hu)]
  generalize r.apply t u (a.options r) = outcome
  obtain ⟨value, messages⟩ := outcome
  cases value with
  | error error => rfl
  | ok violations =>
    have hissues : (violations.map (Violation.shift k)).map (violationIssue file) =
        violations.map (violationIssue file) := by
      rw [List.map_map]
      rfl
    change (⟨(violations.map (Violation.shift k)).map (violationIssue file), _⟩ : Logged _) = _
    rw [hissues]
    rfl

theorem checkUnits_shift (e : t.Embeds t' k) (hgrammar : t.Grammatical) {units : List Nat}
    (hunits : ∀ u ∈ units, (t.kind u).isUnit = true) :
    Logged.collect (fun u => Logged.collect (a.checkUnit file t' u) a.enabled) (units.map (· + k)) =
      Logged.collect (fun u => Logged.collect (a.checkUnit file t u) a.enabled) units := by
  rw [Logged.collect_map]
  apply Logged.collect_congr
  intro u hu
  exact Logged.collect_congr fun r _ => a.checkUnit_shift file e hgrammar (hunits u hu) r

/-- The issues and the log of a program are those of its parts, one after the other, and what follows a function or
method does not change what is said of it. -/
theorem checkTree_append (source : Source) (first second : List Php.Stmt) :
    (a.checkTree file (Php.treeOf source (first ++ second))).value =
      (a.checkTree file (Php.treeOf source first)).value ++ (a.checkTree file (Php.treeOf source second)).value ∧
    (a.checkTree file (Php.treeOf source (first ++ second))).messages =
      (a.checkTree file (Php.treeOf source first)).messages ++ (a.checkTree file (Php.treeOf source second)).messages ∧
    ∀ u ∈ (Php.treeOf source first).units, ∀ r,
      u ∈ (Php.treeOf source (first ++ second)).units ∧
        a.checkUnit file (Php.treeOf source (first ++ second)) u r =
          a.checkUnit file (Php.treeOf source first) u r := by
  have hunits : ∀ (statements : List Php.Stmt), ∀ u ∈ (Php.treeOf source statements).units,
      ((Php.treeOf source statements).kind u).isUnit = true := fun statements u hu =>
    (Php.wellFormed_treeOf source statements).mem_units.1 hu
  have hfirst := a.checkUnits_shift file (Php.embeds_first source first second) (Php.grammatical_treeOf _ _)
    (hunits first)
  have hsecond := a.checkUnits_shift file (Php.embeds_second source first second) (Php.grammatical_treeOf _ _)
    (hunits second)
  simp only [Nat.add_zero, List.map_id'] at hfirst
  have hparts : a.checkTree file (Php.treeOf source (first ++ second)) = do
      let issues ← a.checkTree file (Php.treeOf source first)
      let others ← a.checkTree file (Php.treeOf source second)
      return issues ++ others := by
    rw [checkTree, Php.units_append, Logged.collect_append, hfirst, hsecond]
    rfl
  refine ⟨by rw [hparts]; rfl, by rw [hparts]; simp, fun u hu r => ⟨?_, ?_⟩⟩
  · rw [Php.units_append]
    exact List.mem_append_left _ hu
  · exact a.checkUnit_shift file (Php.embeds_first source first second) (Php.grammatical_treeOf _ _)
      (hunits first u hu) r

/-- A function with a nested function and a closure, and another function behind it. -/
def nestedUnits : String :=
  "<?php function f() { function g() { return $x; return; } return function () { throw $y; }; } function h() {}"

theorem checkTree_append_nestedUnits :
    (5 ∈ (Php.treeOf (Source.ofText nestedUnits) ((Php.Program.ofText nestedUnits).statements.take 2)).units ∧
      (⟨⟨none, [], [], []⟩, Rule.all, fun _ => .empty ""⟩ : Analyzer).checkUnit "a.php"
          (Php.treeOf (Source.ofText nestedUnits) ((Php.Program.ofText nestedUnits).statements.take 2 ++
            (Php.Program.ofText nestedUnits).statements.drop 2)) 5 .unreachableCode =
        (⟨⟨none, [], [], []⟩, Rule.all, fun _ => .empty ""⟩ : Analyzer).checkUnit "a.php"
          (Php.treeOf (Source.ofText nestedUnits) ((Php.Program.ofText nestedUnits).statements.take 2)) 5
          .unreachableCode) := by
  have hunit : 5 ∈ (Php.treeOf (Source.ofText nestedUnits)
      ((Php.Program.ofText nestedUnits).statements.take 2)).units := by decide +kernel
  exact ⟨hunit, ((checkTree_append _ "a.php" _ _ _).2.2 5 hunit .unreachableCode).2⟩

end Analyzer

end PhpInspect
