import Mathlib.Data.List.Forall2
import PhpInspect.Proofs.Tree.Graft

/-! # Numbers in pre-order

Grafting numbers the nodes of an outline in pre-order. So the nodes at and below a grafted node are a range of
numbers, and along this range the tree holds the outlines inside of the outline, one for each number.
-/

namespace PhpInspect

namespace Outline

mutual

/-- An outline and the outlines inside of it in pre-order. -/
def preorder : Outline → List Outline
  | .node label children => .node label children :: preorderAll children

def preorderAll : List Outline → List Outline
  | [] => []
  | o :: os => o.preorder ++ preorderAll os

end

theorem preorderAll_append (os os' : List Outline) : preorderAll (os ++ os') = preorderAll os ++ preorderAll os' := by
  induction os with
  | nil => rfl
  | cons o os ih => rw [List.cons_append, preorderAll, preorderAll, ih, List.append_assoc]

theorem preorderAll_node (label : Label) (children : List Outline) :
    preorderAll [.node label children] = .node label children :: preorderAll children := by
  rw [preorderAll, preorderAll, List.append_nil, preorder]

end Outline

namespace Tree

open Outline

variable {t : Tree} {i : Nat} {os : List Outline}

mutual

theorem Holds.subtree_eq (h : t.WellFormed) : ∀ {o : Outline} {i : Nat}, t.Holds i o →
    t.subtree i = List.range' i o.size
  | .node label children, i, hholds => by
    have hbelow : (places (i + 1) children).flatMap t.subtree = List.range' (i + 1) (sizeAll children) :=
      HoldsAll.flatMap_subtree h hholds.2.2
    rw [h.subtree_eq, hholds.2.1, hbelow, Outline.size, List.range'_succ]

/-- What is laid out as outlines one after the other is a range of numbers. -/
theorem HoldsAll.flatMap_subtree (h : t.WellFormed) : ∀ {os : List Outline} {i : Nat}, t.HoldsAll i os →
    (places i os).flatMap t.subtree = List.range' i (sizeAll os)
  | [], _, _ => rfl
  | o :: os, i, hholds => by
    rw [places, List.flatMap_cons, Holds.subtree_eq h hholds.1, HoldsAll.flatMap_subtree h hholds.2, sizeAll,
      List.range'_append_1]

end

theorem Holds.descendants_eq {o : Outline} (hholds : t.Holds i o) (h : t.WellFormed) :
    t.descendants i = List.range' (i + 1) (sizeAll o.children) := by
  rw [h.descendants_eq_flatMap, hholds.children_eq, hholds.below.flatMap_subtree h]

mutual

theorem Holds.forall₂_preorder : ∀ {o : Outline} {i : Nat}, t.Holds i o →
    List.Forall₂ t.Holds (List.range' i o.size) o.preorder
  | .node label children, i, hholds => by
    rw [Outline.size, preorder, List.range'_succ]
    exact .cons hholds (HoldsAll.forall₂_preorder hholds.2.2)

/-- Along the numbers of outlines that are laid out one after the other, each number stands for its own outline. -/
theorem HoldsAll.forall₂_preorder : ∀ {os : List Outline} {i : Nat}, t.HoldsAll i os →
    List.Forall₂ t.Holds (List.range' i (sizeAll os)) (preorderAll os)
  | [], _, _ => .nil
  | o :: os, i, hholds => by
    rw [sizeAll, preorderAll, ← List.range'_append_1]
    exact List.rel_append (Holds.forall₂_preorder hholds.1) (HoldsAll.forall₂_preorder hholds.2)

end

/-- The nodes of some kinds stand for the outlines of these kinds. -/
theorem HoldsAll.forall₂_filter (hholds : t.HoldsAll i os) (test : Kind → Bool) :
    List.Forall₂ t.Holds ((List.range' i (sizeAll os)).filter fun j => test (t.kind j))
      ((preorderAll os).filter fun o => test o.label.kind) := by
  refine List.rel_filter (fun j o ho => ?_) hholds.forall₂_preorder
  have hkind : t.kind j = o.label.kind := congrArg Label.kind ho.label_eq
  exact iff_of_eq (congrArg (test · = true) hkind)

end Tree

end PhpInspect
