import PhpInspect.Proofs.Tree.Walk

/-! # Outlines and their layout

An outline is a tree without numbers: labels with the outlines below them. Grafting an outline onto a tree gives its
nodes consecutive numbers in pre-order. So the descendants of a grafted node are a range of numbers, and what holds
everywhere in the outlines can be read off the tree, node by node.
-/

namespace PhpInspect

inductive Outline where
  | node (label : Label) (children : List Outline)
deriving Inhabited

namespace Tree

mutual

/-- Adds an outline as the last child of `parent`. -/
def graft (t : Tree) (parent : Nat) : Outline → Tree
  | .node label children => graftAll (t.push label parent) t.size children

/-- Adds outlines, in order, as the last children of `parent`. -/
def graftAll (t : Tree) (parent : Nat) : List Outline → Tree
  | [] => t
  | o :: os => graftAll (graft t parent o) parent os

end

end Tree

namespace Outline

def label : Outline → Label
  | .node label _ => label

def children : Outline → List Outline
  | .node _ children => children

mutual

/-- The number of nodes. -/
def size : Outline → Nat
  | .node _ children => sizeAll children + 1

def sizeAll : List Outline → Nat
  | [] => 0
  | o :: os => o.size + sizeAll os

end

theorem sizeAll_append (os os' : List Outline) : sizeAll (os ++ os') = sizeAll os + sizeAll os' := by
  induction os with
  | nil => simp [sizeAll]
  | cons o os ih => simp only [List.cons_append, sizeAll, ih]; omega

/-- The numbers of the roots of outlines that are laid out one after the other, from a number on. -/
def places (i : Nat) : List Outline → List Nat
  | [] => []
  | o :: os => i :: places (i + o.size) os

theorem places_append (i : Nat) (os os' : List Outline) :
    places i (os ++ os') = places i os ++ places (i + sizeAll os) os' := by
  induction os generalizing i with
  | nil => simp [places, sizeAll]
  | cons o os ih => simp [places, sizeAll, ih, Nat.add_assoc]

theorem places_add (i k : Nat) (os : List Outline) : places (i + k) os = (places i os).map (· + k) := by
  induction os generalizing i with
  | nil => rfl
  | cons o os ih =>
    rw [places, places, List.map_cons, ← ih, Nat.add_right_comm]

/-! ### Local conditions -/

/-- An outline stands somewhere in some outlines. -/
inductive Within : Outline → List Outline → Prop where
  | root {o : Outline} {os : List Outline} : o ∈ os → Within o os
  | inside {o : Outline} {label : Label} {children os : List Outline} :
      .node label children ∈ os → Within o children → Within o os

theorem Within.mono {o : Outline} {os os' : List Outline} (h : Within o os) (hsub : os ⊆ os') : Within o os' := by
  cases h with
  | root ho => exact .root (hsub ho)
  | inside hmem ho => exact .inside (hsub hmem) ho

/-- What stands below an outline stands where the outline does. -/
theorem Within.child {o q : Outline} {os : List Outline} (h : Within q os) (ho : o ∈ q.children) : Within o os := by
  obtain ⟨label, children⟩ := q
  induction h with
  | root hq => exact .inside hq (.root ho)
  | inside hmem _ ih => exact .inside hmem ih

section Everywhere

variable {Q : Outline → Prop} {os os' : List Outline}

/-- A condition holds everywhere in some outlines. -/
def Everywhere (Q : Outline → Prop) (os : List Outline) : Prop := ∀ o, Within o os → Q o

theorem everywhere_nil : Everywhere Q [] := by
  intro o h
  cases h with
  | root ho => cases ho
  | inside hmem => cases hmem

theorem everywhere_append : Everywhere Q (os ++ os') ↔ Everywhere Q os ∧ Everywhere Q os' := by
  constructor
  · intro h
    exact ⟨fun o ho => h o (ho.mono (List.subset_append_left _ _)),
      fun o ho => h o (ho.mono (List.subset_append_right _ _))⟩
  · rintro ⟨h, h'⟩ o ho
    cases ho with
    | root ho =>
      rcases List.mem_append.1 ho with ho | ho
      · exact h o (.root ho)
      · exact h' o (.root ho)
    | inside hmem ho =>
      rcases List.mem_append.1 hmem with hmem | hmem
      · exact h o (.inside hmem ho)
      · exact h' o (.inside hmem ho)

theorem Everywhere.append (h : Everywhere Q os) (h' : Everywhere Q os') : Everywhere Q (os ++ os') :=
  everywhere_append.2 ⟨h, h'⟩

theorem everywhere_flatMap {α : Type} {f : α → List Outline} {xs : List α} (h : ∀ x ∈ xs, Everywhere Q (f x)) :
    Everywhere Q (xs.flatMap f) := by
  induction xs with
  | nil => exact everywhere_nil
  | cons x xs ih => exact (h x List.mem_cons_self).append (ih fun y hy => h y (List.mem_cons_of_mem _ hy))

theorem everywhere_node {l : Label} {cs : List Outline} :
    Everywhere Q [.node l cs] ↔ Q (.node l cs) ∧ Everywhere Q cs := by
  constructor
  · intro h
    exact ⟨h (.node l cs) (.root List.mem_cons_self), fun o ho => h o (.inside List.mem_cons_self ho)⟩
  · rintro ⟨hroot, h⟩ o ho
    cases ho with
    | root ho =>
      rw [List.mem_singleton.1 ho]
      exact hroot
    | inside hmem ho =>
      cases List.mem_singleton.1 hmem
      exact h o ho

end Everywhere

variable {R : Label → List Label → Prop}

/-- A relation between a label and the labels below it holds everywhere in some outlines. -/
def Licensed (R : Label → List Label → Prop) (os : List Outline) : Prop :=
  ∀ o, Within o os → R o.label (o.children.map label)

theorem licensed_nil : Licensed R [] := everywhere_nil

theorem licensed_append {os os' : List Outline} : Licensed R (os ++ os') ↔ Licensed R os ∧ Licensed R os' :=
  everywhere_append

theorem licensed_node {l : Label} {cs : List Outline} :
    Licensed R [.node l cs] ↔ R l (cs.map label) ∧ Licensed R cs := everywhere_node

end Outline

namespace Tree

open Outline

variable {t t' : Tree} {i j k p : Nat}

/-! ### What grafting leaves alone -/

mutual

theorem size_graft (t : Tree) (p : Nat) : ∀ o : Outline, (t.graft p o).size = t.size + o.size
  | .node label children => by
    rw [graft, size_graftAll, size_push, Outline.size]
    omega

theorem size_graftAll (t : Tree) (p : Nat) : ∀ os : List Outline, (t.graftAll p os).size = t.size + sizeAll os
  | [] => by rw [graftAll, sizeAll, Nat.add_zero]
  | o :: os => by rw [graftAll, size_graftAll, size_graft, sizeAll, Nat.add_assoc]

end

mutual

theorem Built.graft : ∀ (o : Outline) {t : Tree} {p : Nat}, t.Built → p < t.size → (t.graft p o).Built
  | .node label children, t, p, h, hp => by
    rw [Tree.graft]
    exact Built.graftAll children (h.push label hp) (by rw [size_push]; omega)

theorem Built.graftAll : ∀ (os : List Outline) {t : Tree} {p : Nat}, t.Built → p < t.size →
    (t.graftAll p os).Built
  | [], _, _, h, _ => h
  | o :: os, t, p, h, hp => by
    rw [Tree.graftAll]
    exact Built.graftAll os (Built.graft o h hp) (by rw [size_graft]; omega)

end

mutual

/-- Grafting changes one node of the tree: its parent gets a new last child. -/
theorem node_graft : ∀ (o : Outline) {t : Tree} {p i : Nat}, p < t.size → i < t.size →
    (t.graft p o).node i =
      if i = p then { t.node p with children := t.children p ++ [t.size] } else t.node i
  | .node label children, t, p, i, hp, hi => by
    have hne : i ≠ t.size := by omega
    rw [graft, node_graftAll children (by rw [size_push]; omega) (by rw [size_push]; omega), if_neg hne,
      node_push hp, if_neg hne]

theorem node_graftAll : ∀ (os : List Outline) {t : Tree} {p i : Nat}, p < t.size → i < t.size →
    (t.graftAll p os).node i =
      if i = p then { t.node p with children := t.children p ++ places t.size os } else t.node i
  | [], t, p, i, _, _ => by
    rw [graftAll, places, List.append_nil]
    split_ifs with h
    · subst h; rfl
    · rfl
  | o :: os, t, p, i, hp, hi => by
    rw [graftAll, node_graftAll os (by rw [size_graft]; omega) (by rw [size_graft]; omega), size_graft, places]
    split_ifs with h
    · subst h
      simp only [children, node_graft o hp hp, if_true, List.append_assoc, List.singleton_append]
    · rw [node_graft o hp hi, if_neg h]

end

/-! ### The layout -/

mutual

/-- From node `i` on, the tree is laid out as an outline. -/
def Holds (t : Tree) (i : Nat) : Outline → Prop
  | .node label children =>
    (t.node i).toLabel = label ∧ t.children i = places (i + 1) children ∧ t.HoldsAll (i + 1) children

/-- From node `i` on, the tree is laid out as outlines one after the other. -/
def HoldsAll (t : Tree) (i : Nat) : List Outline → Prop
  | [] => True
  | o :: os => t.Holds i o ∧ t.HoldsAll (i + o.size) os

end

mutual

theorem Holds.congr : ∀ {o : Outline} {i : Nat}, (∀ j, i ≤ j → j < i + o.size → t'.node j = t.node j) →
    t.Holds i o → t'.Holds i o
  | .node label children, i, hsame, h => by
    rw [Outline.size] at hsame
    have hi : t'.node i = t.node i := hsame i (by omega) (by omega)
    refine ⟨by rw [hi]; exact h.1, ?_, ?_⟩
    · rw [Tree.children, hi]
      exact h.2.1
    · exact HoldsAll.congr (fun j hle hlt => hsame j (by omega) (by omega)) h.2.2

theorem HoldsAll.congr : ∀ {os : List Outline} {i : Nat},
    (∀ j, i ≤ j → j < i + sizeAll os → t'.node j = t.node j) → t.HoldsAll i os → t'.HoldsAll i os
  | [], _, _, _ => trivial
  | o :: os, i, hsame, h => by
    rw [sizeAll] at hsame
    exact ⟨Holds.congr (fun j hle hlt => hsame j hle (by omega)) h.1,
      HoldsAll.congr (fun j hle hlt => hsame j (by omega) (by omega)) h.2⟩

end

mutual

theorem holds_graft : ∀ (o : Outline) {t : Tree} {p : Nat}, p < t.size → (t.graft p o).Holds t.size o
  | .node label children, t, p, hp => by
    have hsize : t.size < (t.push label p).size := by rw [size_push]; omega
    have hroot := node_graftAll children hsize hsize
    rw [if_pos rfl, node_push hp, if_pos rfl, size_push] at hroot
    have hall := holdsAll_graftAll children hsize
    rw [size_push] at hall
    rw [graft]
    refine ⟨by rw [hroot], ?_, hall⟩
    have hnil : (t.push label p).children t.size = [] := by
      rw [Tree.children, node_push hp, if_pos rfl]
    rw [Tree.children, hroot, hnil, List.nil_append]

theorem holdsAll_graftAll : ∀ (os : List Outline) {t : Tree} {p : Nat}, p < t.size →
    (t.graftAll p os).HoldsAll t.size os
  | [], _, _, _ => trivial
  | o :: os, t, p, hp => by
    have hlt : p < (t.graft p o).size := by rw [size_graft]; omega
    have hall := holdsAll_graftAll os hlt
    rw [size_graft] at hall
    rw [graftAll]
    -- What is grafted later goes below `p`, which is not among the nodes of `o`.
    refine ⟨Holds.congr (fun j hle hj => ?_) (holds_graft o hp), hall⟩
    have hj' : j < (t.graft p o).size := by rw [size_graft]; exact hj
    rw [node_graftAll os hlt hj', if_neg (by omega)]

end

theorem HoldsAll.of_append {os os' : List Outline} (h : t.HoldsAll i (os ++ os')) :
    t.HoldsAll i os ∧ t.HoldsAll (i + sizeAll os) os' := by
  induction os generalizing i with
  | nil => exact ⟨trivial, by simpa [sizeAll] using h⟩
  | cons o os ih =>
    obtain ⟨hhead, htail⟩ := h
    obtain ⟨hos, hos'⟩ := ih htail
    exact ⟨⟨hhead, hos⟩, by rw [sizeAll, ← Nat.add_assoc]; exact hos'⟩

theorem Holds.label_eq {o : Outline} (h : t.Holds i o) : (t.node i).toLabel = o.label := by
  cases o with
  | node label children => exact h.1

theorem Holds.children_eq {o : Outline} (h : t.Holds i o) : t.children i = places (i + 1) o.children := by
  cases o with
  | node label children => exact h.2.1

theorem Holds.below {o : Outline} (h : t.Holds i o) : t.HoldsAll (i + 1) o.children := by
  cases o with
  | node label children => exact h.2.2

theorem HoldsAll.map_label {os : List Outline} (h : t.HoldsAll i os) :
    (places i os).map (fun c => (t.node c).toLabel) = os.map Outline.label := by
  induction os generalizing i with
  | nil => rfl
  | cons o os ih => rw [places, List.map_cons, List.map_cons, h.1.label_eq, ih h.2]

theorem Holds.map_label {o : Outline} (h : t.Holds i o) :
    (t.children i).map (fun c => (t.node c).toLabel) = o.children.map Outline.label := by
  rw [h.children_eq, h.below.map_label]

theorem HoldsAll.holds_of_mem_places {os : List Outline} (h : t.HoldsAll i os) (hj : j ∈ places i os) :
    ∃ o ∈ os, t.Holds j o := by
  induction os generalizing i with
  | nil => cases hj
  | cons o os ih =>
    rcases List.mem_cons.1 hj with rfl | hj
    · exact ⟨o, List.mem_cons_self, h.1⟩
    · obtain ⟨q, hq, hholds⟩ := ih h.2 hj
      exact ⟨q, List.mem_cons_of_mem _ hq, hholds⟩

theorem Holds.exists_child {o : Outline} (h : t.Holds i o) (hwf : t.WellFormed) (hj : t.parent j = some i) :
    ∃ q ∈ o.children, t.Holds j q := by
  have hmem : j ∈ t.children i := (hwf.mem_children i j).2 hj
  rw [h.children_eq] at hmem
  exact h.below.holds_of_mem_places hmem

/-- Whatever lies below a node is laid out as a part of its outline. -/
theorem Holds.exists_below {o : Outline} (h : t.Holds i o) (hwf : t.WellFormed) (hj : i ∈ t.ancestors j) :
    ∃ q, Within q [o] ∧ t.Holds j q := by
  induction j using hwf.upward with
  | orphan j hnone => simp [ancestors_of_parent_none hnone] at hj
  | step j p hp ih =>
    obtain ⟨q, hq, hholds⟩ : ∃ q, Within q [o] ∧ t.Holds p q := by
      rw [hwf.ancestors_of_parent hp, List.mem_cons] at hj
      rcases hj with rfl | hj
      · exact ⟨o, .root List.mem_cons_self, h⟩
      · exact ih hj
    obtain ⟨r, hr, hholds⟩ := hholds.exists_child hwf hp
    exact ⟨r, hq.child hr, hholds⟩

mutual

/-- Where two trees are laid out alike, every number stands for the same outline in both. -/
theorem Holds.locate : ∀ (o : Outline) {i j : Nat}, t.Holds i o → t'.Holds (i + k) o → i ≤ j →
    j < i + o.size → ∃ q, Within q [o] ∧ t.Holds j q ∧ t'.Holds (j + k) q
  | .node label children, i, j, h, h', hle, hlt => by
    rw [Outline.size] at hlt
    by_cases hij : j = i
    · subst hij
      exact ⟨.node label children, .root List.mem_cons_self, h, h'⟩
    · have hbelow : t'.HoldsAll (i + 1 + k) children := by
        rw [Nat.add_right_comm]
        exact h'.below
      obtain ⟨q, hq, hj, hj'⟩ := HoldsAll.locate (j := j) children h.below hbelow (by omega) (by omega)
      exact ⟨q, .inside List.mem_cons_self hq, hj, hj'⟩

theorem HoldsAll.locate : ∀ (os : List Outline) {i j : Nat}, t.HoldsAll i os → t'.HoldsAll (i + k) os →
    i ≤ j → j < i + sizeAll os → ∃ q, Within q os ∧ t.Holds j q ∧ t'.Holds (j + k) q
  | [], i, j, _, _, hle, hlt => by
    rw [sizeAll] at hlt
    omega
  | o :: os, i, j, h, h', hle, hlt => by
    rw [sizeAll] at hlt
    by_cases hj : j < i + o.size
    · obtain ⟨q, hq, hq₁, hq₂⟩ := Holds.locate o h.1 h'.1 hle hj
      exact ⟨q, hq.mono (by simp), hq₁, hq₂⟩
    · have htail : t'.HoldsAll (i + o.size + k) os := by
        rw [Nat.add_right_comm]
        exact h'.2
      obtain ⟨q, hq, hq₁, hq₂⟩ := HoldsAll.locate (j := j) os h.2 htail (by omega) (by omega)
      exact ⟨q, hq.mono (List.subset_cons_self _ _), hq₁, hq₂⟩

end

/-- What holds everywhere in the outlines holds at every node that they are laid out on. -/
theorem HoldsAll.licensed {os : List Outline} {R : Label → List Label → Prop} (h : t.HoldsAll i os)
    (hR : Licensed R os) (hle : i ≤ j) (hlt : j < i + sizeAll os) :
    R (t.node j).toLabel ((t.children j).map fun c => (t.node c).toLabel) := by
  obtain ⟨o, ho, hj, -⟩ := HoldsAll.locate (k := 0) os h h hle hlt
  rw [hj.label_eq, hj.map_label]
  exact hR o ho

end Tree

end PhpInspect
