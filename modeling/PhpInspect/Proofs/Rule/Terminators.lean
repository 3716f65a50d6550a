import PhpInspect.Proofs.Tree.Walk
import PhpInspect.Rule.UnreachableCode

/-! # Terminators

Every terminator below a function or method belongs to one unit, the nearest above it.
-/

namespace PhpInspect.UnreachableCode

variable {t : Tree} {i p u w : Nat}

/-- Behind a test that leaves all other kinds out. -/
theorem kind_eq_of_not_bne_or {kind : Kind} {other : Bool} (h : ¬(t.kind i != kind || other) = true) :
    t.kind i = kind := by
  by_contra hne
  simp [hne] at h

theorem mem_ancestors_of_enclosingUnit (h : enclosingUnit t i = some u) :
    u ∈ t.ancestors i ∧ (t.kind u).isUnit = true :=
  ⟨List.mem_of_find?_eq_some h, List.find?_some (p := fun a => (t.kind a).isUnit) h⟩

/-- A unit above a node is the nearest if no other lies between. -/
theorem enclosingUnit_of_ancestors {way above : List Nat} (h : t.ancestors i = way ++ u :: above)
    (hu : (t.kind u).isUnit = true) :
    enclosingUnit t i = ((way.find? fun a => (t.kind a).isUnit).getD u : Nat) := by
  rw [enclosingUnit, h, List.find?_append, List.find?_cons, hu]
  cases way.find? fun a => (t.kind a).isUnit <;> rfl

theorem enclosingUnit_of_parent (h : t.WellFormed) (hp : t.parent i = some p) :
    enclosingUnit t i = if (t.kind p).isUnit then some p else enclosingUnit t p := by
  rw [enclosingUnit, h.ancestors_of_parent hp, List.find?_cons]
  cases (t.kind p).isUnit <;> rfl

/-- No unit above a unit encloses what lies below it. -/
theorem le_of_enclosingUnit (h : t.WellFormed) (hu : (t.kind u).isUnit = true) (hi : u ∈ t.ancestors i)
    (hw : enclosingUnit t i = some w) : u ≤ w := by
  induction i using h.upward with
  | orphan i hnone => simp [Tree.ancestors_of_parent_none hnone] at hi
  | step i p hp ih =>
    rw [enclosingUnit_of_parent h hp] at hw
    rw [h.ancestors_of_parent hp, List.mem_cons] at hi
    split_ifs at hw with hunit
    · cases hw
      rcases hi with rfl | hi
      · exact Nat.le_refl u
      · exact Nat.le_of_lt (h.lt_of_mem_ancestors hi)
    · rcases hi with rfl | hi
      · exact absurd hu hunit
      · exact ih hi hw

theorem mem_terminators (h : t.WellFormed) :
    i ∈ terminators t u ↔ isTerminator (t.kind i) = true ∧ enclosingUnit t i = some u := by
  simp only [terminators, List.mem_filter, Bool.and_eq_true, beq_iff_eq]
  constructor
  · exact fun hi => hi.2
  · intro hi
    exact ⟨h.mem_descendants.2 (mem_ancestors_of_enclosingUnit hi.2).1, hi⟩

theorem nodup_terminators (h : t.WellFormed) (u : Nat) : (terminators t u).Nodup := (h.nodup_descendants u).filter _

end PhpInspect.UnreachableCode
