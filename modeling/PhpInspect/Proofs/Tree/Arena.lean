import Mathlib.Data.List.Nodup
import PhpInspect.Tree.Basic

/-! # The invariant of numbered trees

Parent links and lists of children are two records of one relation. They agree in every tree that grows by adding
nodes below nodes that are there, and a node always has a greater number than its parent.
-/

namespace PhpInspect.Tree

variable {t : Tree} {i p c : Nat} {label : Label}

/-! ### Reading a tree that has grown -/

theorem node_of_size_le (h : t.size ≤ i) : t.node i = ⟨⟨.program, "", 0, 0, false⟩, none, []⟩ := by
  have hout : t.nodes[i]? = none := Array.getElem?_eq_none h
  rw [node, Array.getD_eq_getD_getElem?, hout, Option.getD_none]

theorem kind_of_size_le (h : t.size ≤ i) : t.kind i = .program := by
  rw [kind, node_of_size_le h]

theorem parent_of_size_le (h : t.size ≤ i) : t.parent i = none := by
  rw [parent, node_of_size_le h]

theorem children_of_size_le (h : t.size ≤ i) : t.children i = [] := by
  rw [children, node_of_size_le h]

theorem node_push (hp : p < t.size) (i : Nat) :
    (t.push label p).node i =
      if i = t.size then { label with parent := some p, children := [] }
      else if i = p then { t.node p with children := t.children p ++ [t.size] }
      else t.node i := by
  have hmod : (t.nodes.modify p fun n => { n with children := n.children ++ [t.size] }).size = t.size := by
    simp [size]
  simp only [node, push, children, Array.getD_eq_getD_getElem?, Array.getElem?_push, hmod]
  by_cases hi : i = t.size
  · simp [hi]
  · by_cases hip : i = p
    · subst hip
      have hget : t.nodes[i]? = some t.nodes[i] := Array.getElem?_eq_getElem hp
      simp [hi, Array.getElem?_modify, hget]
    · simp [hi, hip, Array.getElem?_modify, Ne.symm hip]

theorem node_setAbstract (t : Tree) (k i : Nat) :
    (t.setAbstract k).node i = { t.node i with isAbstract := (t.setAbstract k).isAbstract i } := by
  simp only [isAbstract, node, setAbstract, Array.getD_eq_getD_getElem?, Array.getElem?_modify]
  by_cases hk : k = i
  · subst hk
    cases t.nodes[k]? <;> simp
  · simp [hk]

theorem label_push (hp : p < t.size) (i : Nat) :
    ((t.push label p).node i).toLabel = if i = t.size then label else (t.node i).toLabel := by
  rw [node_push hp]
  split_ifs with h₁ h₂
  · rfl
  · subst h₂; rfl
  · rfl

theorem parent_push (hp : p < t.size) (i : Nat) :
    (t.push label p).parent i = if i = t.size then some p else t.parent i := by
  simp only [parent, node_push hp]
  split_ifs with h₁ h₂
  · rfl
  · subst h₂; rfl
  · rfl

theorem children_push (hp : p < t.size) (i : Nat) :
    (t.push label p).children i = if i = p then t.children p ++ [t.size] else t.children i := by
  by_cases h₁ : i = t.size
  · have hne : i ≠ p := by omega
    rw [children, node_push hp, if_pos h₁, if_neg hne, children_of_size_le (by omega)]
  · rw [children, node_push hp, if_neg h₁]
    split_ifs <;> rfl

@[simp] theorem parent_setAbstract (t : Tree) (k i : Nat) : (t.setAbstract k).parent i = t.parent i := by
  simp only [parent, node_setAbstract]

@[simp] theorem children_setAbstract (t : Tree) (k i : Nat) : (t.setAbstract k).children i = t.children i := by
  simp only [children, node_setAbstract]

@[simp] theorem kind_setAbstract (t : Tree) (k i : Nat) : (t.setAbstract k).kind i = t.kind i := by
  simp only [kind, node_setAbstract]

/-! ### The invariant -/

/-- The two records of the parent relation agree, and numbers grow downwards from the root, a program. -/
structure WellFormed (t : Tree) : Prop where
  size_pos : 0 < t.size
  kind_root : t.kind root = .program
  parent_root : t.parent root = none
  exists_parent : ∀ i, 0 < i → i < t.size → ∃ p, t.parent i = some p
  parent_lt : ∀ i p, t.parent i = some p → p < i
  mem_children : ∀ p c, c ∈ t.children p ↔ t.parent c = some p
  children_sorted : ∀ p, (t.children p).Pairwise (· < ·)

theorem lt_size_of_parent (h : t.parent i = some p) : i < t.size := by
  by_contra hge
  have hnone : t.parent i = none := parent_of_size_le (by omega)
  rw [hnone] at h
  cases h

theorem wellFormed_empty (b e : Nat) : (empty b e).WellFormed where
  size_pos := by simp
  kind_root := rfl
  parent_root := rfl
  exists_parent i hpos hlt := by
    rw [size_empty] at hlt
    omega
  parent_lt i p h := by
    have hi : i < 1 := lt_size_of_parent h
    obtain rfl : i = 0 := by omega
    cases h
  mem_children p c := by
    have hnil : (empty b e).children p = [] := by
      by_cases hp : p = 0
      · subst hp; rfl
      · exact children_of_size_le (by rw [size_empty]; omega)
    have hnone : (empty b e).parent c = none := by
      by_cases hc : c = 0
      · subst hc; rfl
      · exact parent_of_size_le (by rw [size_empty]; omega)
    simp [hnil, hnone]
  children_sorted p := by
    by_cases hp : p = 0
    · subst hp; exact List.Pairwise.nil
    · rw [children_of_size_le (by rw [size_empty]; omega)]
      exact List.Pairwise.nil

/-- Adding a node below a node of the tree keeps the invariant: the new node has the greatest number. -/
theorem WellFormed.push (h : t.WellFormed) (hp : p < t.size) (label : Label) :
    (t.push label p).WellFormed where
  size_pos := by simp
  kind_root := by
    have hne : root ≠ t.size := Nat.ne_of_lt h.size_pos
    have hlabel : ((t.push label p).node root).toLabel = (t.node root).toLabel := by
      rw [label_push hp, if_neg hne]
    exact (congrArg Label.kind hlabel).trans h.kind_root
  parent_root := by
    have hne : root ≠ t.size := Nat.ne_of_lt h.size_pos
    rw [parent_push hp, if_neg hne, h.parent_root]
  exists_parent i hpos hlt := by
    rw [parent_push hp]
    split_ifs with hi
    · exact ⟨p, rfl⟩
    · rw [size_push] at hlt
      exact h.exists_parent i hpos (by omega)
  parent_lt i q hq := by
    rw [parent_push hp] at hq
    split_ifs at hq with hi
    · cases hq
      omega
    · exact h.parent_lt i q hq
  mem_children q c := by
    have hfresh : t.size ∉ t.children q := fun hmem =>
      absurd (lt_size_of_parent ((h.mem_children q _).1 hmem)) (by omega)
    rw [children_push hp, parent_push hp]
    by_cases hq : q = p
    · subst hq
      by_cases hc : c = t.size
      · simp [hc]
      · simp [hc, h.mem_children]
    · by_cases hc : c = t.size
      · subst hc
        simp [hq, hfresh, Ne.symm hq]
      · simp [hq, hc, h.mem_children]
  children_sorted q := by
    rw [children_push hp]
    split_ifs with hq
    · rw [List.pairwise_append]
      refine ⟨h.children_sorted p, List.pairwise_singleton _ _, ?_⟩
      intro c hc d hd
      rw [List.mem_singleton.1 hd]
      exact lt_size_of_parent ((h.mem_children p c).1 hc)
    · exact h.children_sorted q

theorem WellFormed.setAbstract (h : t.WellFormed) (k : Nat) : (t.setAbstract k).WellFormed where
  size_pos := by simpa using h.size_pos
  kind_root := by simpa using h.kind_root
  parent_root := by simpa using h.parent_root
  exists_parent i hpos hlt := by simpa using h.exists_parent i hpos (by simpa using hlt)
  parent_lt i p hp := h.parent_lt i p (by simpa using hp)
  mem_children p c := by simpa using h.mem_children p c
  children_sorted p := by simpa using h.children_sorted p

/-- The trees that grow from a bare root by adding nodes below nodes of the tree and by marking nodes as
abstract. -/
inductive Built : Tree → Prop where
  | empty (b e : Nat) : Built (empty b e)
  | push {t : Tree} (label : Label) {p : Nat} : Built t → p < t.size → Built (t.push label p)
  | setAbstract {t : Tree} (i : Nat) : Built t → Built (t.setAbstract i)

theorem Built.wellFormed (h : t.Built) : t.WellFormed := by
  induction h with
  | empty b e => exact wellFormed_empty b e
  | push label _ hp ih => exact ih.push hp label
  | setAbstract i _ ih => exact ih.setAbstract i

end PhpInspect.Tree
