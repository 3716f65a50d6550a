import Mathlib.Data.List.Perm.Subperm
import PhpInspect.Proofs.Tree.Arena

/-! # Walking well-formed trees

The bounded walks of a tree never run into their bounds when the tree is well-formed. Upwards, the ancestors of a
node are its parent and the ancestors of its parent. Downwards, the descendants are the recursive pre-order, each
node once, and a node lies below another exactly if the other is one of its ancestors.
-/

namespace PhpInspect.Tree

variable {t : Tree} {i p a b c d u : Nat}

/-! ### Two inductions -/

/-- Induction from parents to children. -/
theorem WellFormed.upward (h : t.WellFormed) {P : Nat → Prop} (orphan : ∀ i, t.parent i = none → P i)
    (step : ∀ i p, t.parent i = some p → P p → P i) (i : Nat) : P i := by
  induction i using Nat.strongRecOn with
  | ind i ih =>
    cases hp : t.parent i with
    | none => exact orphan i hp
    | some p => exact step i p hp (ih p (h.parent_lt i p hp))

theorem WellFormed.lt_of_mem_children (h : t.WellFormed) (hc : c ∈ t.children i) : i < c :=
  h.parent_lt c i ((h.mem_children i c).1 hc)

theorem WellFormed.lt_size_of_mem_children (h : t.WellFormed) (hc : c ∈ t.children i) : c < t.size :=
  lt_size_of_parent ((h.mem_children i c).1 hc)

/-- Induction from children to parents. -/
theorem WellFormed.downward (h : t.WellFormed) {P : Nat → Prop}
    (step : ∀ i, (∀ c ∈ t.children i, P c) → P i) (i : Nat) : P i := by
  induction hk : t.size - i using Nat.strongRecOn generalizing i with
  | ind k ih =>
    refine step i fun c hc => ih (t.size - c) ?_ c rfl
    have hlt := h.lt_of_mem_children hc
    have hsize := h.lt_size_of_mem_children hc
    omega

/-! ### Ancestors -/

theorem climb_none (t : Tree) (n : Nat) : t.climb n none = [] := by
  cases n <;> rfl

theorem WellFormed.climb_eq (h : t.WellFormed) {m n : Nat} (i : Nat) (hm : i < m) (hn : i < n) :
    t.climb m (some i) = t.climb n (some i) := by
  induction i using h.upward generalizing m n with
  | orphan i hi =>
    obtain ⟨m, rfl⟩ : ∃ k, m = k + 1 := ⟨m - 1, by omega⟩
    obtain ⟨n, rfl⟩ : ∃ k, n = k + 1 := ⟨n - 1, by omega⟩
    simp only [climb, hi, climb_none]
  | step i p hp ih =>
    have hlt := h.parent_lt i p hp
    obtain ⟨m, rfl⟩ : ∃ k, m = k + 1 := ⟨m - 1, by omega⟩
    obtain ⟨n, rfl⟩ : ∃ k, n = k + 1 := ⟨n - 1, by omega⟩
    simp only [climb, hp]
    rw [ih (m := m) (n := n) (by omega) (by omega)]

theorem ancestors_of_parent_none (hi : t.parent i = none) : t.ancestors i = [] := by
  rw [ancestors, hi, climb_none]

theorem WellFormed.ancestors_of_parent (h : t.WellFormed) (hp : t.parent i = some p) :
    t.ancestors i = p :: t.ancestors p := by
  have hi : i < t.size := lt_size_of_parent hp
  have hlt := h.parent_lt i p hp
  obtain ⟨n, hn⟩ : ∃ n, t.size = n + 1 := ⟨t.size - 1, by omega⟩
  rw [ancestors, ancestors, hp, hn, climb]
  cases hq : t.parent p with
  | none => rw [climb_none, climb_none]
  | some q =>
    have hqlt := h.parent_lt p q hq
    rw [h.climb_eq q (by omega : q < n) (by omega : q < n + 1)]

theorem WellFormed.lt_of_mem_ancestors (h : t.WellFormed) (ha : a ∈ t.ancestors i) : a < i := by
  induction i using h.upward with
  | orphan i hi => simp [ancestors_of_parent_none hi] at ha
  | step i p hp ih =>
    have hlt := h.parent_lt i p hp
    rw [h.ancestors_of_parent hp, List.mem_cons] at ha
    rcases ha with rfl | ha
    · exact hlt
    · exact Nat.lt_trans (ih ha) hlt

/-- The ancestors beyond an ancestor are the ancestors of that ancestor. -/
theorem WellFormed.ancestors_split (h : t.WellFormed) (ha : a ∈ t.ancestors i) :
    ∃ between, t.ancestors i = between ++ a :: t.ancestors a := by
  induction i using h.upward with
  | orphan i hi => simp [ancestors_of_parent_none hi] at ha
  | step i p hp ih =>
    rw [h.ancestors_of_parent hp, List.mem_cons] at ha
    rw [h.ancestors_of_parent hp]
    rcases ha with rfl | ha
    · exact ⟨[], rfl⟩
    · obtain ⟨between, hb⟩ := ih ha
      exact ⟨p :: between, by rw [hb, List.cons_append]⟩

theorem WellFormed.mem_ancestors_trans (h : t.WellFormed) (ha : a ∈ t.ancestors b) (hb : b ∈ t.ancestors i) :
    a ∈ t.ancestors i := by
  obtain ⟨between, hsplit⟩ := h.ancestors_split hb
  rw [hsplit]
  exact List.mem_append_right _ (List.mem_cons_of_mem _ ha)

/-- Of two ancestors of a node, the one with the smaller number is above the other. -/
theorem WellFormed.mem_ancestors_of_lt (h : t.WellFormed) (ha : a ∈ t.ancestors i) (hb : b ∈ t.ancestors i)
    (hlt : a < b) : a ∈ t.ancestors b := by
  induction i using h.upward with
  | orphan i hi => simp [ancestors_of_parent_none hi] at ha
  | step i p hp ih =>
    rw [h.ancestors_of_parent hp, List.mem_cons] at ha hb
    rcases ha with rfl | ha
    · rcases hb with rfl | hb
      · omega
      · have := h.lt_of_mem_ancestors hb
        omega
    · rcases hb with rfl | hb
      · exact ha
      · exact ih ha hb

theorem WellFormed.root_mem_ancestors (h : t.WellFormed) (hpos : 0 < i) (hi : i < t.size) :
    root ∈ t.ancestors i := by
  induction i using h.upward with
  | orphan i hnone =>
    obtain ⟨p, hp⟩ := h.exists_parent i hpos hi
    rw [hnone] at hp
    cases hp
  | step i p hp ih =>
    have hlt := h.parent_lt i p hp
    rw [h.ancestors_of_parent hp, List.mem_cons]
    by_cases hroot : p = 0
    · exact .inl hroot.symm
    · exact .inr (ih (by omega) (by omega))

/-! ### Descendants -/

/-- The recursive pre-order of the nodes from `i` downwards, cut off below a depth. -/
def listing (t : Tree) : Nat → Nat → List Nat
  | 0, _ => []
  | depth + 1, i => i :: (t.children i).flatMap (t.listing depth)

theorem WellFormed.listing_eq (h : t.WellFormed) {m n : Nat} (i : Nat) (hm : t.size - i < m)
    (hn : t.size - i < n) : t.listing m i = t.listing n i := by
  induction i using h.downward generalizing m n with
  | step i ih =>
    obtain ⟨m, rfl⟩ : ∃ k, m = k + 1 := ⟨m - 1, by omega⟩
    obtain ⟨n, rfl⟩ : ∃ k, n = k + 1 := ⟨n - 1, by omega⟩
    simp only [listing, List.cons.injEq, true_and]
    refine List.flatMap_congr fun c hc => ?_
    have hlt := h.lt_of_mem_children hc
    have hsize := h.lt_size_of_mem_children hc
    exact ih c hc (by omega) (by omega)

/-- A node and all that is below it in pre-order. -/
def subtree (t : Tree) (i : Nat) : List Nat := t.listing (t.size + 1) i

theorem WellFormed.subtree_eq (h : t.WellFormed) (i : Nat) :
    t.subtree i = i :: (t.children i).flatMap t.subtree := by
  rw [subtree, listing]
  congr 1
  refine List.flatMap_congr fun c hc => ?_
  have hlt := h.lt_of_mem_children hc
  have hsize := h.lt_size_of_mem_children hc
  exact h.listing_eq c (by omega) (by omega)

theorem WellFormed.self_mem_subtree (h : t.WellFormed) (i : Nat) : i ∈ t.subtree i := by
  rw [h.subtree_eq]
  exact List.mem_cons_self

/-- A subtree holds the children of its nodes. -/
theorem WellFormed.mem_subtree_of_child (h : t.WellFormed) (hp : p ∈ t.subtree i) (hc : c ∈ t.children p) :
    c ∈ t.subtree i := by
  induction i using h.downward with
  | step i ih =>
    rw [h.subtree_eq, List.mem_cons, List.mem_flatMap] at hp
    rw [h.subtree_eq, List.mem_cons, List.mem_flatMap]
    rcases hp with rfl | ⟨b, hb, hp⟩
    · exact .inr ⟨c, hc, h.self_mem_subtree c⟩
    · exact .inr ⟨b, hb, ih b hb hp⟩

theorem WellFormed.mem_subtree (h : t.WellFormed) : d ∈ t.subtree i ↔ d = i ∨ i ∈ t.ancestors d := by
  constructor
  · intro hd
    induction i using h.downward with
    | step i ih =>
      rw [h.subtree_eq, List.mem_cons, List.mem_flatMap] at hd
      rcases hd with rfl | ⟨c, hc, hd⟩
      · exact .inl rfl
      · have hic : i ∈ t.ancestors c := by
          rw [h.ancestors_of_parent ((h.mem_children i c).1 hc)]
          exact List.mem_cons_self
        rcases ih c hc hd with rfl | hcd
        · exact .inr hic
        · exact .inr (h.mem_ancestors_trans hic hcd)
  · rintro (rfl | ha)
    · exact h.self_mem_subtree d
    · induction d using h.upward with
      | orphan d hd => simp [ancestors_of_parent_none hd] at ha
      | step d p hp ih =>
        have hdp : d ∈ t.children p := (h.mem_children p d).2 hp
        rw [h.ancestors_of_parent hp, List.mem_cons] at ha
        rcases ha with rfl | ha
        · exact h.mem_subtree_of_child (h.self_mem_subtree i) hdp
        · exact h.mem_subtree_of_child (ih ha) hdp

theorem WellFormed.mem_subtree_trans (h : t.WellFormed) (hb : b ∈ t.subtree i) (hd : d ∈ t.subtree b) :
    d ∈ t.subtree i := by
  rw [h.mem_subtree] at hb hd ⊢
  rcases hd with rfl | hd
  · exact hb
  · rcases hb with rfl | hb
    · exact .inr hd
    · exact .inr (h.mem_ancestors_trans hb hd)

/-- Below a node in the subtree of `i` everything lies below `i`. -/
theorem WellFormed.mem_ancestors_of_mem_subtree (h : t.WellFormed) (hb : b ∈ t.subtree i) (hd : b ∈ t.ancestors d) :
    i ∈ t.ancestors d := by
  rcases h.mem_subtree.1 hb with rfl | hb
  · exact hd
  · exact h.mem_ancestors_trans hb hd

theorem WellFormed.le_of_mem_subtree (h : t.WellFormed) (hd : d ∈ t.subtree i) : i ≤ d := by
  rcases h.mem_subtree.1 hd with rfl | ha
  · exact Nat.le_refl d
  · exact Nat.le_of_lt (h.lt_of_mem_ancestors ha)

/-- The subtrees of two siblings have no node in common. -/
theorem WellFormed.disjoint_subtree (h : t.WellFormed) (hb : b ∈ t.children p) (hc : c ∈ t.children p)
    (hlt : b < c) : (t.subtree b).Disjoint (t.subtree c) := by
  intro d hdb hdc
  have hpb : p < b := h.lt_of_mem_children hb
  have habove : b ∈ t.ancestors c := by
    rcases h.mem_subtree.1 hdc with rfl | hcd
    · rcases h.mem_subtree.1 hdb with rfl | hbd
      · omega
      · exact hbd
    · rcases h.mem_subtree.1 hdb with rfl | hbd
      · have := h.lt_of_mem_ancestors hcd
        omega
      · exact h.mem_ancestors_of_lt hbd hcd hlt
  rw [h.ancestors_of_parent ((h.mem_children p c).1 hc), List.mem_cons] at habove
  rcases habove with rfl | habove
  · omega
  · have := h.lt_of_mem_ancestors habove
    omega

theorem WellFormed.nodup_flatMap_subtree (h : t.WellFormed) (ih : ∀ c ∈ t.children i, (t.subtree c).Nodup) :
    ((t.children i).flatMap t.subtree).Nodup := by
  rw [List.nodup_flatMap]
  refine ⟨ih, ?_⟩
  refine List.Pairwise.imp_of_mem ?_ (h.children_sorted i)
  intro b c hb hc hlt
  exact h.disjoint_subtree hb hc hlt

theorem WellFormed.nodup_subtree (h : t.WellFormed) (i : Nat) : (t.subtree i).Nodup := by
  induction i using h.downward with
  | step i ih =>
    rw [h.subtree_eq, List.nodup_cons]
    refine ⟨?_, h.nodup_flatMap_subtree ih⟩
    intro hi
    obtain ⟨c, hc, hic⟩ := List.mem_flatMap.1 hi
    have hlt := h.lt_of_mem_children hc
    have hle := h.le_of_mem_subtree hic
    omega

/-- The walk with a stack yields the recursive pre-order of what is on the stack, as far as its steps go. -/
theorem WellFormed.walk_eq_take (h : t.WellFormed) (n : Nat) (pending : List Nat) :
    t.walk n pending = (pending.flatMap t.subtree).take n := by
  induction n generalizing pending with
  | zero => simp [walk]
  | succ n ih =>
    cases pending with
    | nil => simp [walk]
    | cons i pending =>
      rw [walk, ih, List.flatMap_cons, h.subtree_eq i, List.cons_append, List.take_succ_cons,
        List.flatMap_append]

theorem WellFormed.lt_size_of_mem_subtree (h : t.WellFormed) (hi : i < t.size) (hd : d ∈ t.subtree i) :
    d < t.size := by
  rcases h.mem_subtree.1 hd with rfl | ha
  · exact hi
  · cases hp : t.parent d with
    | none => simp [ancestors_of_parent_none hp] at ha
    | some p => exact lt_size_of_parent hp

theorem WellFormed.descendants_eq_flatMap (h : t.WellFormed) (i : Nat) :
    t.descendants i = (t.children i).flatMap t.subtree := by
  rw [descendants, h.walk_eq_take, List.take_of_length_le]
  have hnodup := h.nodup_flatMap_subtree (i := i) fun c _ => h.nodup_subtree c
  have hsub : (t.children i).flatMap t.subtree ⊆ List.range t.size := by
    intro d hd
    obtain ⟨c, hc, hdc⟩ := List.mem_flatMap.1 hd
    exact List.mem_range.2 (h.lt_size_of_mem_subtree (h.lt_size_of_mem_children hc) hdc)
  have hlen := (List.Nodup.subperm hnodup hsub).length_le
  rwa [List.length_range] at hlen

theorem WellFormed.subtree_eq_cons (h : t.WellFormed) (i : Nat) : t.subtree i = i :: t.descendants i := by
  rw [h.subtree_eq, h.descendants_eq_flatMap]

theorem WellFormed.nodup_descendants (h : t.WellFormed) (i : Nat) : (t.descendants i).Nodup := by
  have hnodup := h.nodup_subtree i
  rw [h.subtree_eq_cons] at hnodup
  exact (List.nodup_cons.1 hnodup).2

theorem WellFormed.mem_descendants (h : t.WellFormed) : d ∈ t.descendants i ↔ i ∈ t.ancestors d := by
  have hnodup := h.nodup_subtree i
  have hmem := h.mem_subtree (d := d) (i := i)
  rw [h.subtree_eq_cons] at hnodup hmem
  have hself : i ∉ t.descendants i := (List.nodup_cons.1 hnodup).1
  constructor
  · intro hd
    rcases hmem.1 (List.mem_cons_of_mem _ hd) with rfl | ha
    · exact absurd hd hself
    · exact ha
  · intro ha
    rcases List.mem_cons.1 (hmem.2 (.inr ha)) with rfl | hd
    · exact absurd (h.lt_of_mem_ancestors ha) (by omega)
    · exact hd

/-! ### Units -/

theorem lt_size_of_kind (hk : t.kind i ≠ .program) : i < t.size := by
  by_contra hge
  exact hk (kind_of_size_le (by omega))

/-- A node that is no program is not the root. -/
theorem WellFormed.pos_of_kind (h : t.WellFormed) (hk : t.kind i ≠ .program) : 0 < i := by
  by_contra hzero
  obtain rfl : i = root := by simp only [root]; omega
  exact hk h.kind_root

theorem WellFormed.exists_parent_of_kind (h : t.WellFormed) (hk : t.kind i ≠ .program) :
    ∃ p, t.parent i = some p :=
  h.exists_parent i (h.pos_of_kind hk) (lt_size_of_kind hk)

theorem kind_ne_program_of_isUnit (hu : (t.kind u).isUnit = true) : t.kind u ≠ .program := by
  intro hprogram
  rw [hprogram] at hu
  cases hu

theorem WellFormed.mem_units (h : t.WellFormed) : u ∈ t.units ↔ (t.kind u).isUnit = true := by
  rw [units, List.mem_filter, and_iff_right_iff_imp]
  intro hu
  have hk := kind_ne_program_of_isUnit hu
  exact h.mem_descendants.2 (h.root_mem_ancestors (h.pos_of_kind hk) (lt_size_of_kind hk))

theorem WellFormed.nodup_units (h : t.WellFormed) : t.units.Nodup :=
  (h.nodup_descendants root).filter _

/-- A parent that is no unit lies below every unit above its child. -/
theorem WellFormed.mem_ancestors_of_parent (h : t.WellFormed) (hu : (t.kind u).isUnit = true)
    (hd : u ∈ t.ancestors d) (hp : t.parent d = some p) (hk : (t.kind p).isUnit = false) : u ∈ t.ancestors p := by
  rw [h.ancestors_of_parent hp, List.mem_cons] at hd
  rcases hd with rfl | hd
  · rw [hu] at hk
    cases hk
  · exact hd

end PhpInspect.Tree
