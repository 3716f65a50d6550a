import PhpInspect.Proofs.Tree.Walk
import PhpInspect.Rule.Basic

/-! # Trees that differ in their images only

Walking a tree looks at the kinds and the links of its nodes. So in trees that are the same but for the images of some
nodes, a walk meets the same nodes.
-/

namespace PhpInspect.Tree

variable {t t' : Tree}

/-- Two trees have the same nodes, apart from the images. -/
structure Alike (t t' : Tree) : Prop where
  size : t'.size = t.size
  kind : t'.kind = t.kind
  parent : t'.parent = t.parent
  children : t'.children = t.children
  beginLine : t'.beginLine = t.beginLine
  endLine : t'.endLine = t.endLine
  isAbstract : t'.isAbstract = t.isAbstract

/-- The parents of the nodes of a tree say what the children are, and in which order. -/
theorem WellFormed.children_eq (h : t.WellFormed) (h' : t'.WellFormed) (hparent : t'.parent = t.parent) :
    t'.children = t.children := by
  funext p
  have hnodup : (t.children p).Nodup := (h.children_sorted p).imp Nat.ne_of_lt
  have hnodup' : (t'.children p).Nodup := (h'.children_sorted p).imp Nat.ne_of_lt
  have hperm : (t'.children p).Perm (t.children p) := by
    rw [List.perm_ext_iff_of_nodup hnodup' hnodup]
    intro c
    rw [h.mem_children, h'.mem_children, hparent]
  refine hperm.eq_of_pairwise (fun a b _ _ hab hba => ?_) (h'.children_sorted p) (h.children_sorted p)
  omega

namespace Alike

variable (h : t.Alike t')

include h

theorem walk (steps : Nat) (pending : List Nat) : t'.walk steps pending = t.walk steps pending := by
  induction steps generalizing pending with
  | zero => rfl
  | succ steps ih =>
    cases pending with
    | nil => rfl
    | cons i pending => rw [Tree.walk, Tree.walk, h.children, ih]

theorem descendants : t'.descendants = t.descendants := by
  funext i
  rw [Tree.descendants, Tree.descendants, h.size, h.children, h.walk]

theorem descendantsOfKind : t'.descendantsOfKind = t.descendantsOfKind := by
  funext i kind
  rw [Tree.descendantsOfKind, Tree.descendantsOfKind, h.descendants, h.kind]

theorem climb (steps : Nat) (i : Option Nat) : t'.climb steps i = t.climb steps i := by
  induction steps generalizing i with
  | zero => rfl
  | succ steps ih =>
    cases i with
    | none => rfl
    | some i => rw [Tree.climb, Tree.climb, h.parent, ih]

theorem ancestors : t'.ancestors = t.ancestors := by
  funext i
  rw [Tree.ancestors, Tree.ancestors, h.size, h.parent, h.climb]

theorem firstChildOfKind : t'.firstChildOfKind = t.firstChildOfKind := by
  funext i kind
  rw [Tree.firstChildOfKind, Tree.firstChildOfKind, h.children, h.kind]

theorem child? : t'.child? = t.child? := by
  funext i index
  rw [Tree.child?, Tree.child?, h.children]

theorem indexInParent : t'.indexInParent = t.indexInParent := by
  funext i
  rw [Tree.indexInParent, Tree.indexInParent, h.parent, h.children]

theorem isFirstChild : t'.isFirstChild = t.isFirstChild := by
  funext i
  rw [Tree.isFirstChild, Tree.isFirstChild, h.indexInParent]

theorem isLastChild : t'.isLastChild = t.isLastChild := by
  funext i
  simp only [Tree.isLastChild, Tree.nextSibling, h.parent, h.indexInParent, h.child?]

theorem parentOf : t'.parentOf = t.parentOf := by
  funext i
  rw [Tree.parentOf, Tree.parentOf, h.parent, h.kind, h.beginLine]

theorem requireChild : t'.requireChild = t.requireChild := by
  funext i kind
  rw [Tree.requireChild, Tree.requireChild, h.firstChildOfKind, h.kind, h.beginLine]

end Alike

end PhpInspect.Tree
