import Mathlib.Logic.Function.Iterate
import PhpInspect.Proofs.Tree.Siblings
import PhpInspect.Proofs.Tree.Walk

/-! # Walks step by step

A walk downwards keeps a stack of pending nodes, a walk upwards the next node above. In a well-formed tree both come to
an end by themselves: after as many steps as there are nodes to meet, nothing is pending. The stack yields the pre-order
that the recursion over children gives.
-/

namespace PhpInspect.Tree

variable {t : Tree} {i : Nat}

/-! ### Downwards -/

/-- One step of a walk with a stack: the node on top gives way to its children. -/
def advance (t : Tree) : List Nat → List Nat
  | [] => []
  | i :: pending => t.children i ++ pending

/-- A step takes one node off what is still to come. -/
theorem WellFormed.flatMap_subtree_advance (h : t.WellFormed) (pending : List Nat) :
    (t.advance pending).flatMap t.subtree = (pending.flatMap t.subtree).tail := by
  cases pending with
  | nil => rfl
  | cons i pending =>
    rw [advance, List.flatMap_append, List.flatMap_cons, h.subtree_eq i, List.cons_append, List.tail_cons]

theorem WellFormed.flatMap_subtree_iterate (h : t.WellFormed) (steps : Nat) (pending : List Nat) :
    (t.advance^[steps] pending).flatMap t.subtree = (pending.flatMap t.subtree).drop steps := by
  induction steps generalizing pending with
  | zero => rfl
  | succ steps ih => rw [Function.iterate_succ_apply, ih, h.flatMap_subtree_advance, List.drop_tail]

/-- The node on top of the stack is the next one to come. -/
theorem WellFormed.head?_flatMap_subtree (h : t.WellFormed) (pending : List Nat) :
    (pending.flatMap t.subtree).head? = pending.head? := by
  cases pending with
  | nil => rfl
  | cons i pending => rw [List.flatMap_cons, h.subtree_eq i, List.cons_append, List.head?_cons, List.head?_cons]

theorem WellFormed.head?_iterate_advance (h : t.WellFormed) (i steps : Nat) :
    (t.advance^[steps] (t.children i)).head? = (t.descendants i)[steps]? := by
  rw [← h.head?_flatMap_subtree, h.flatMap_subtree_iterate, List.head?_drop, h.descendants_eq_flatMap]

theorem WellFormed.descendants_eq (h : t.WellFormed) (i : Nat) :
    t.descendants i = (t.children i).flatMap fun c => c :: t.descendants c := by
  rw [h.descendants_eq_flatMap]
  exact List.flatMap_congr fun c _ => h.subtree_eq_cons c

/-- Only one listing of the nodes below each node puts after each child the listing of that child. -/
theorem WellFormed.listing_iff (h : t.WellFormed) (listing : Nat → List Nat) :
    (∀ i, listing i = (t.children i).flatMap fun c => c :: listing c) ↔ listing = t.descendants := by
  constructor
  · intro hlisting
    funext i
    induction i using h.downward with
    | step i ih =>
      rw [hlisting i, h.descendants_eq i]
      exact List.flatMap_congr fun c hc => by rw [ih c hc]
  · rintro rfl
    exact h.descendants_eq

/-! ### Upwards -/

theorem WellFormed.iterate_parent (h : t.WellFormed) (i steps : Nat) :
    (Option.bind · t.parent)^[steps] (t.parent i) = (t.ancestors i)[steps]? := by
  induction i using h.upward generalizing steps with
  | orphan i hi =>
    rw [ancestors_of_parent_none hi, hi]
    exact Function.iterate_fixed rfl steps
  | step i p hp ih =>
    rw [h.ancestors_of_parent hp, hp]
    cases steps with
    | zero => rfl
    | succ steps => simpa [Function.iterate_succ_apply] using ih steps

theorem WellFormed.getLast?_ancestors (h : t.WellFormed) (hi : i < t.size) :
    (i :: t.ancestors i).getLast? = some root := by
  induction i using h.upward with
  | orphan i hnone =>
    rw [ancestors_of_parent_none hnone, (h.parent_eq_none_iff hi).1 hnone]
    rfl
  | step i p hp ih =>
    rw [h.ancestors_of_parent hp, List.getLast?_cons_cons]
    exact ih (Nat.lt_trans (h.parent_lt i p hp) hi)

/-! ### Trees that grow from a bare root -/

/-- In every tree that grows from a bare root the walks end. The one downwards yields the recursive pre-order, each node
once: after some steps the top of the stack is the node at that position, and behind the last node the stack is empty.
The one upwards follows the parents to the root. A node is below another exactly if the other is above it. -/
theorem traversals_of_built (t : Tree) (h : t.Built) :
    (∀ i steps, (t.advance^[steps] (t.children i)).head? = (t.descendants i)[steps]?) ∧
    (∀ listing : Nat → List Nat,
      (∀ i, listing i = (t.children i).flatMap fun c => c :: listing c) ↔ listing = t.descendants) ∧
    (∀ i, (t.descendants i).Nodup) ∧
    (∀ i steps, (Option.bind · t.parent)^[steps] (t.parent i) = (t.ancestors i)[steps]?) ∧
    (∀ i < t.size, (i :: t.ancestors i).getLast? = some root) ∧
    ∀ i d, d ∈ t.descendants i ↔ i ∈ t.ancestors d := by
  have hwf := h.wellFormed
  exact ⟨hwf.head?_iterate_advance, hwf.listing_iff, hwf.nodup_descendants, hwf.iterate_parent,
    fun i hi => hwf.getLast?_ancestors hi, fun i d => hwf.mem_descendants⟩

/-- The last node was added below the first child of the root, so it comes before the second child. -/
theorem traversals_of_lateGrowth :
    lateGrowth.Built ∧ lateGrowth.descendants root = [1, 3, 2] ∧
    ((lateGrowth.advance^[1] (lateGrowth.children root)).head? = some 3 ∧
      lateGrowth.advance^[3] (lateGrowth.children root) = []) ∧
    (3 < lateGrowth.size ∧ (3 :: lateGrowth.ancestors 3).getLast? = some root) ∧
    (3 ∈ lateGrowth.descendants 1 ↔ 1 ∈ lateGrowth.ancestors 3) := by
  have hwalks := traversals_of_built lateGrowth built_lateGrowth
  have hlisting : lateGrowth.descendants root = [1, 3, 2] := by decide
  have hsize : 3 < lateGrowth.size := by decide
  have hlast : (lateGrowth.advance^[3] (lateGrowth.children root)).head? = none := by
    rw [hwalks.1, hlisting]
    rfl
  refine ⟨built_lateGrowth, hlisting, ⟨?_, List.head?_eq_none_iff.1 hlast⟩, ⟨hsize, hwalks.2.2.2.2.1 3 hsize⟩,
    hwalks.2.2.2.2.2 1 3⟩
  rw [hwalks.1, hlisting]
  rfl

end PhpInspect.Tree
