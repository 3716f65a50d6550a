import PhpInspect.Proofs.Tree.Graft

/-! # One tree inside another

Below its root, a tree may stand inside another tree with all numbers shifted. Whatever is read at or below a node
that is not the root is then the same in both, up to the shift; only what lies above may differ.
-/

namespace PhpInspect.Tree

open Outline

variable {t t' : Tree} {k i p a b c d u : Nat}

/-! ### Lists with their items renamed -/

theorem filter_map_congr {α β : Type} (g : α → β) {test : α → Bool} {test' : β → Bool} {xs : List α}
    (h : ∀ x ∈ xs, test' (g x) = test x) : (xs.map g).filter test' = (xs.filter test).map g := by
  rw [List.filter_map]
  congr 1
  exact List.filter_congr h

theorem find?_map_congr {α β : Type} (g : α → β) {test : α → Bool} {test' : β → Bool} {xs : List α}
    (h : ∀ x ∈ xs, test' (g x) = test x) : (xs.map g).find? test' = (xs.find? test).map g := by
  rw [← List.head?_filter, ← List.head?_filter, filter_map_congr g h, List.head?_map]

/-! ### Nodes below the root -/

/-- A node other than the root. -/
def Inner (t : Tree) (i : Nat) : Prop := 0 < i ∧ i < t.size

theorem WellFormed.inner_of_parent (h : t.WellFormed) (hp : t.parent i = some p) : t.Inner i := by
  have hlt := h.parent_lt i p hp
  exact ⟨by omega, lt_size_of_parent hp⟩

theorem WellFormed.inner_of_mem_children (h : t.WellFormed) (hc : c ∈ t.children p) : t.Inner c :=
  h.inner_of_parent ((h.mem_children p c).1 hc)

theorem WellFormed.inner_of_kind (h : t.WellFormed) (hk : t.kind i ≠ .program) : t.Inner i :=
  ⟨h.pos_of_kind hk, lt_size_of_kind hk⟩

theorem WellFormed.inner_of_mem_subtree (h : t.WellFormed) (hu : t.Inner u) (hi : i ∈ t.subtree u) : t.Inner i := by
  have hle := h.le_of_mem_subtree hi
  exact ⟨Nat.lt_of_lt_of_le hu.1 hle, h.lt_size_of_mem_subtree hu.2 hi⟩

theorem WellFormed.inner_of_mem_ancestors (h : t.WellFormed) (hu : u ∈ t.ancestors i) : t.Inner i := by
  cases hp : t.parent i with
  | none => simp [ancestors_of_parent_none hp] at hu
  | some p => exact h.inner_of_parent hp

/-- The parent of a node below `u` is `u` or lies below it. -/
theorem WellFormed.parent_of_mem_ancestors (h : t.WellFormed) (hu : u ∈ t.ancestors i) :
    ∃ p, t.parent i = some p ∧ (p = u ∨ u ∈ t.ancestors p) := by
  cases hp : t.parent i with
  | none => simp [ancestors_of_parent_none hp] at hu
  | some p =>
    rw [h.ancestors_of_parent hp, List.mem_cons] at hu
    exact ⟨p, rfl, hu.imp_left Eq.symm⟩

/-- Below the root, `t` stands inside `t'` with its numbers shifted by `k`. -/
structure Embeds (t t' : Tree) (k : Nat) : Prop where
  inner : t.WellFormed
  outer : t'.WellFormed
  size_le : t.size + k ≤ t'.size
  label : ∀ i, t.Inner i → (t'.node (i + k)).toLabel = (t.node i).toLabel
  children : ∀ i, t.Inner i → t'.children (i + k) = (t.children i).map (· + k)

/-- A tree that is nothing but outlines below its root stands inside every tree that holds the same outlines. -/
theorem HoldsAll.embeds {os : List Outline} (h : t.WellFormed) (h' : t'.WellFormed) (hsize : t.size = 1 + sizeAll os)
    (hle : t.size + k ≤ t'.size) (hos : t.HoldsAll 1 os) (hos' : t'.HoldsAll (1 + k) os) : t.Embeds t' k := by
  have hlocate : ∀ i, t.Inner i → ∃ q, t.Holds i q ∧ t'.Holds (i + k) q := by
    intro i hi
    obtain ⟨q, -, hq⟩ := HoldsAll.locate (j := i) os hos hos' hi.1 (hsize ▸ hi.2)
    exact ⟨q, hq⟩
  refine ⟨h, h', hle, fun i hi => ?_, fun i hi => ?_⟩
  · obtain ⟨q, hq, hq'⟩ := hlocate i hi
    rw [hq.label_eq, hq'.label_eq]
  · obtain ⟨q, hq, hq'⟩ := hlocate i hi
    rw [hq.children_eq, hq'.children_eq, Nat.add_right_comm, places_add]

namespace Embeds

variable (e : t.Embeds t' k)

include e

/-! ### Reading a node -/

theorem kind (hi : t.Inner i) : t'.kind (i + k) = t.kind i := congrArg Label.kind (e.label i hi)

theorem image (hi : t.Inner i) : t'.image (i + k) = t.image i := congrArg Label.image (e.label i hi)

theorem beginLine (hi : t.Inner i) : t'.beginLine (i + k) = t.beginLine i := congrArg Label.beginLine (e.label i hi)

theorem endLine (hi : t.Inner i) : t'.endLine (i + k) = t.endLine i := congrArg Label.endLine (e.label i hi)

theorem isAbstract (hi : t.Inner i) : t'.isAbstract (i + k) = t.isAbstract i :=
  congrArg Label.isAbstract (e.label i hi)

theorem parent (hp : t.parent i = some p) (hinner : t.Inner p) : t'.parent (i + k) = some (p + k) := by
  rw [← e.outer.mem_children, e.children p hinner]
  exact List.mem_map_of_mem ((e.inner.mem_children p i).2 hp)

/-! ### Neighbours -/

theorem child? (hi : t.Inner i) (index : Nat) : t'.child? (i + k) index = (t.child? i index).map (· + k) := by
  rw [Tree.child?, Tree.child?, e.children i hi, List.getElem?_map]

theorem indexInParent (hp : t.parent i = some p) (hinner : t.Inner p) :
    t'.indexInParent (i + k) = t.indexInParent i := by
  have hsame : (fun c => c == i + k) ∘ (· + k) = fun c => c == i := by
    funext c
    simp
  rw [Tree.indexInParent, Tree.indexInParent, e.parent hp hinner, hp, Option.bind_some, Option.bind_some,
    e.children p hinner, List.findIdx?_map, hsame]

theorem nextSibling (hp : t.parent i = some p) (hinner : t.Inner p) :
    t'.nextSibling (i + k) = (t.nextSibling i).map (· + k) := by
  rw [Tree.nextSibling, Tree.nextSibling, e.indexInParent hp hinner, e.parent hp hinner, hp, Option.bind_some,
    Option.bind_some]
  cases t.indexInParent i with
  | none => rfl
  | some index => exact e.child? hinner (index + 1)

theorem isLastChild (hp : t.parent i = some p) (hinner : t.Inner p) : t'.isLastChild (i + k) = t.isLastChild i := by
  rw [Tree.isLastChild, Tree.isLastChild, e.nextSibling hp hinner, Option.isNone_map]

theorem firstChildOfKind (hi : t.Inner i) (kind : Kind) :
    t'.firstChildOfKind (i + k) kind = (t.firstChildOfKind i kind).map (· + k) := by
  rw [Tree.firstChildOfKind, Tree.firstChildOfKind, e.children i hi]
  apply find?_map_congr
  intro c hc
  rw [e.kind (e.inner.inner_of_mem_children hc)]

/-! ### Walking -/

theorem subtree (hi : t.Inner i) : t'.subtree (i + k) = (t.subtree i).map (· + k) := by
  induction i using e.inner.downward with
  | step i ih =>
    rw [e.outer.subtree_eq, e.inner.subtree_eq, e.children i hi, List.map_cons, List.flatMap_map, List.map_flatMap]
    congr 1
    exact List.flatMap_congr fun c hc => ih c hc (e.inner.inner_of_mem_children hc)

theorem descendants (hi : t.Inner i) : t'.descendants (i + k) = (t.descendants i).map (· + k) := by
  have hsubtree := e.subtree hi
  rw [e.outer.subtree_eq_cons, e.inner.subtree_eq_cons, List.map_cons] at hsubtree
  exact (List.cons.inj hsubtree).2

theorem descendantsOfKind (hi : t.Inner i) (kind : Kind) :
    t'.descendantsOfKind (i + k) kind = (t.descendantsOfKind i kind).map (· + k) := by
  rw [Tree.descendantsOfKind, Tree.descendantsOfKind, e.descendants hi]
  apply filter_map_congr
  intro d hd
  rw [e.kind (e.inner.inner_of_mem_ancestors (e.inner.mem_descendants.1 hd))]

/-- The way up from a node to `u` is the same in both trees. -/
theorem ancestors (hu : t.Inner u) (hd : u ∈ t.ancestors d) :
    ∃ way : List Nat, (∀ a ∈ way, t.Inner a) ∧ t.ancestors d = way ++ u :: t.ancestors u ∧
      t'.ancestors (d + k) = way.map (· + k) ++ (u + k) :: t'.ancestors (u + k) := by
  induction d using e.inner.upward with
  | orphan d hnone => simp [ancestors_of_parent_none hnone] at hd
  | step d p hp ih =>
    rw [e.inner.ancestors_of_parent hp, List.mem_cons] at hd
    by_cases hpu : u = p
    · subst hpu
      refine ⟨[], by simp, e.inner.ancestors_of_parent hp, ?_⟩
      exact e.outer.ancestors_of_parent (e.parent hp hu)
    · have hup : u ∈ t.ancestors p := hd.resolve_left hpu
      have hinner := e.inner.inner_of_mem_ancestors hup
      obtain ⟨way, hway, hbelow, habove⟩ := ih hup
      refine ⟨p :: way, ?_, ?_, ?_⟩
      · intro a ha
        rcases List.mem_cons.1 ha with rfl | ha
        · exact hinner
        · exact hway a ha
      · rw [e.inner.ancestors_of_parent hp, hbelow, List.cons_append]
      · rw [e.outer.ancestors_of_parent (e.parent hp hinner), habove, List.map_cons, List.cons_append]

end Embeds

end PhpInspect.Tree
