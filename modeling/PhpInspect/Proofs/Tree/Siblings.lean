import Mathlib.Order.Bounds.Basic
import PhpInspect.Proofs.Tree.Arena

/-! # Siblings

The list of children says of each node where it stands among its siblings. Since the list is sorted, the node behind
another in it is the next one by number with the same parent.
-/

namespace PhpInspect.Tree

variable {t : Tree} {i p s : Nat} {before behind : List Nat}

/-! ### The place of a child -/

theorem WellFormed.exists_split (h : t.WellFormed) (hp : t.parent i = some p) :
    ∃ before behind, t.children p = before ++ i :: behind :=
  List.append_of_mem ((h.mem_children p i).2 hp)

theorem child?_length (hchildren : t.children p = before ++ i :: behind) : t.child? p before.length = some i := by
  rw [child?, hchildren]
  simp

section Split

variable (h : t.WellFormed) (hchildren : t.children p = before ++ i :: behind)

include h hchildren

theorem WellFormed.parent_of_split : t.parent i = some p := by
  rw [← h.mem_children, hchildren]
  exact List.mem_append_right _ List.mem_cons_self

/-- A child parts its siblings into those with smaller and those with greater numbers. -/
theorem WellFormed.sorted_split : (∀ c ∈ before, c < i) ∧ (i :: behind).Pairwise (· < ·) := by
  have hsorted := h.children_sorted p
  rw [hchildren, List.pairwise_append] at hsorted
  exact ⟨fun c hc => hsorted.2.2 c hc i List.mem_cons_self, hsorted.2.1⟩

theorem WellFormed.indexInParent_eq : t.indexInParent i = some before.length := by
  have hbefore : ∀ c ∈ before, (c == i) = false := by
    intro c hc
    have hlt := (h.sorted_split hchildren).1 c hc
    rw [beq_eq_false_iff_ne]
    omega
  rw [indexInParent, h.parent_of_split hchildren, Option.bind_some, hchildren, List.findIdx?_append,
    List.findIdx?_eq_none_iff.2 hbefore]
  simp [List.findIdx?_cons]

theorem WellFormed.nextSibling_eq : t.nextSibling i = behind.head? := by
  rw [nextSibling, h.parent_of_split hchildren, h.indexInParent_eq hchildren, Option.bind_some, Option.bind_some,
    child?, hchildren, List.getElem?_append_right (by omega), Nat.add_sub_cancel_left]
  cases behind <;> rfl

theorem WellFormed.isLastChild_eq : t.isLastChild i = behind.isEmpty := by
  rw [isLastChild, h.nextSibling_eq hchildren]
  cases behind <;> rfl

end Split

/-! ### Siblings by number -/

/-- The nodes behind a node with the same parent; the root has none. -/
def laterSiblings (t : Tree) (i : Nat) : Set Nat := {c | c < t.size ∧ t.parent c = t.parent i ∧ i < c}

theorem WellFormed.parent_eq_none_iff (h : t.WellFormed) (hi : i < t.size) : t.parent i = none ↔ i = root := by
  constructor
  · intro hnone
    by_contra hne
    obtain ⟨p, hp⟩ := h.exists_parent i (Nat.pos_of_ne_zero hne) hi
    rw [hnone] at hp
    cases hp
  · rintro rfl
    exact h.parent_root

theorem WellFormed.laterSiblings_root (h : t.WellFormed) : t.laterSiblings root = ∅ := by
  ext c
  simp only [laterSiblings, Set.mem_ofPred_eq, Set.mem_empty_iff_false, iff_false]
  rintro ⟨hc, hparent, hlt⟩
  rw [h.parent_root, h.parent_eq_none_iff hc] at hparent
  omega

theorem WellFormed.mem_laterSiblings (h : t.WellFormed) (hchildren : t.children p = before ++ i :: behind) :
    s ∈ t.laterSiblings i ↔ s ∈ behind := by
  obtain ⟨hbefore, hsorted⟩ := h.sorted_split hchildren
  have hmem := h.mem_children p s
  rw [hchildren, List.mem_append, List.mem_cons] at hmem
  simp only [laterSiblings, Set.mem_ofPred_eq, h.parent_of_split hchildren]
  constructor
  · rintro ⟨-, hparent, hlt⟩
    rcases hmem.2 hparent with hs | rfl | hs
    · have := hbefore s hs
      omega
    · omega
    · exact hs
  · intro hs
    have hparent := hmem.1 (.inr (.inr hs))
    exact ⟨lt_size_of_parent hparent, hparent, List.rel_of_pairwise_cons hsorted hs⟩

/-- The next sibling is the nearest of the later ones. -/
theorem WellFormed.nextSibling_eq_some_iff (h : t.WellFormed) (hi : i < t.size) :
    t.nextSibling i = some s ↔ IsLeast (t.laterSiblings i) s := by
  cases hp : t.parent i with
  | none =>
    obtain rfl := (h.parent_eq_none_iff hi).1 hp
    rw [h.laterSiblings_root, nextSibling, hp]
    simp [IsLeast]
  | some p =>
    obtain ⟨before, behind, hchildren⟩ := h.exists_split hp
    have hlater : ∀ c, c ∈ t.laterSiblings i ↔ c ∈ behind := fun c => h.mem_laterSiblings hchildren
    have hsorted : behind.Pairwise (· < ·) := (h.sorted_split hchildren).2.tail
    rw [h.nextSibling_eq hchildren]
    cases behind with
    | nil => simp [IsLeast, hlater]
    | cons b rest =>
      rw [List.pairwise_cons] at hsorted
      have hleast : IsLeast (t.laterSiblings i) b := by
        refine ⟨(hlater b).2 List.mem_cons_self, fun c hc => ?_⟩
        rcases List.mem_cons.1 ((hlater c).1 hc) with rfl | hc
        · exact Nat.le_refl c
        · exact Nat.le_of_lt (hsorted.1 c hc)
      constructor
      · intro hs
        cases hs
        exact hleast
      · intro hs
        exact congrArg some (hleast.unique hs)

theorem WellFormed.isLastChild_iff (h : t.WellFormed) (hi : i < t.size) :
    t.isLastChild i = true ↔ t.laterSiblings i = ∅ := by
  cases hp : t.parent i with
  | none =>
    obtain rfl := (h.parent_eq_none_iff hi).1 hp
    simp [h.laterSiblings_root, isLastChild, nextSibling, hp]
  | some p =>
    obtain ⟨before, behind, hchildren⟩ := h.exists_split hp
    rw [h.isLastChild_eq hchildren, List.isEmpty_iff, Set.eq_empty_iff_forall_notMem, List.eq_nil_iff_forall_not_mem]
    exact forall_congr' fun c => not_congr (h.mem_laterSiblings hchildren).symm

/-! ### The arena -/

/-- In every tree that grows from a bare root, parents and lists of children agree, numbers grow downwards and along
lists of children, so that siblings can be found by number, and a new node changes nothing but the children of its
parent. -/
theorem links_of_built (t : Tree) (h : t.Built) :
    (t.kind root = .program ∧ ∀ i < t.size, t.parent i = none ↔ i = root) ∧
    (∀ i p, t.parent i = some p → p < i ∧ i < t.size) ∧
    (∀ p c, c ∈ t.children p ↔ t.parent c = some p) ∧
    (∀ p, (t.children p).Pairwise (· < ·)) ∧
    (∀ i < t.size, i ≠ root → ∃ p index, t.parent i = some p ∧ t.indexInParent i = some index ∧
      t.child? p index = some i) ∧
    (∀ i < t.size, (∀ s, t.nextSibling i = some s ↔ IsLeast (t.laterSiblings i) s) ∧
      (t.isLastChild i = true ↔ t.laterSiblings i = ∅)) ∧
    ∀ (label : Label) (p : Nat), p < t.size →
      (t.push label p).size = t.size + 1 ∧
      (t.push label p).node t.size = { label with parent := some p, children := [] } ∧
      (t.push label p).node p = { t.node p with children := t.children p ++ [t.size] } ∧
      ∀ i < t.size, i ≠ p → (t.push label p).node i = t.node i := by
  have hwf := h.wellFormed
  refine ⟨⟨hwf.kind_root, fun i => hwf.parent_eq_none_iff⟩, fun i p hp => ⟨hwf.parent_lt i p hp, lt_size_of_parent hp⟩,
    hwf.mem_children, hwf.children_sorted, ?_, ?_, ?_⟩
  · intro i hi hne
    obtain ⟨p, hp⟩ := hwf.exists_parent i (Nat.pos_of_ne_zero hne) hi
    obtain ⟨before, behind, hchildren⟩ := hwf.exists_split hp
    exact ⟨p, before.length, hp, hwf.indexInParent_eq hchildren, child?_length hchildren⟩
  · intro i hi
    exact ⟨fun s => hwf.nextSibling_eq_some_iff hi, hwf.isLastChild_iff hi⟩
  · intro label p hp
    refine ⟨size_push t label p, ?_, ?_, fun i hi hne => ?_⟩
    · rw [node_push hp, if_pos rfl]
    · rw [node_push hp, if_neg (by omega), if_pos rfl]
    · rw [node_push hp, if_neg (by omega), if_neg hne]

/-- A tree in which the first child of the root gets a child after the second one was there. -/
def lateGrowth : Tree :=
  ((((empty 1 4).push ⟨.function, "f", 1, 2, false⟩ 0).push ⟨.function, "g", 3, 4, false⟩ 0).push
    ⟨.scope, "", 1, 2, false⟩ 1).setAbstract 2

theorem built_lateGrowth : lateGrowth.Built :=
  .setAbstract 2 (.push _ (.push _ (.push _ (.empty 1 4) (by decide)) (by decide)) (by decide))

theorem links_of_lateGrowth :
    lateGrowth.Built ∧ (1 < lateGrowth.size ∧ 1 ≠ root) ∧
    (∀ s, lateGrowth.nextSibling 1 = some s ↔ IsLeast (lateGrowth.laterSiblings 1) s) ∧
    (lateGrowth.push ⟨.scope, "", 3, 4, false⟩ 2).node 2 =
      { lateGrowth.node 2 with children := lateGrowth.children 2 ++ [lateGrowth.size] } := by
  have hlinks := links_of_built lateGrowth built_lateGrowth
  have hsize : 1 < lateGrowth.size := by decide
  exact ⟨built_lateGrowth, ⟨hsize, by decide⟩, (hlinks.2.2.2.2.2.1 1 hsize).1,
    (hlinks.2.2.2.2.2.2 ⟨.scope, "", 3, 4, false⟩ 2 (by decide)).2.2.1⟩

end PhpInspect.Tree
