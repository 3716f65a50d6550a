import PhpInspect.Proofs.Rule.Totality
import PhpInspect.Proofs.Tree.Preorder
import PhpInspect.Proofs.Tree.Siblings

/-! # Where variables are defined

Whether a variable is defined where it stands is decided by the nodes above it. Each node hands down to its children
what their place does to a variable there, so a single walk from the top decides it for all variables of a tree.
-/

namespace PhpInspect

/-- What a place in a tree does to the variables at it. -/
structure Place where
  /-- A variable is defined here. -/
  bare : Bool
  /-- The operand of an operator is defined here. -/
  operand : Bool
  /-- The base of an index is defined here. -/
  element : Bool
deriving DecidableEq

namespace Place

/-- A place at which everything is read. -/
def reading : Place := ⟨false, false, false⟩

/-- A place at which a variable is written, as a whole or in parts. -/
def writing : Place := ⟨true, false, true⟩

/-- The place of a child, below a node of some kind that has a place itself. -/
def below (place : Place) (kind : Kind) (first : Bool) : Place :=
  match kind with
  | .assignmentExpression => if first then writing else reading
  | .foreachStatement => if first then reading else ⟨true, true, false⟩
  | .listExpression => writing
  | .catchStatement | .globalStatement | .staticStatement => ⟨true, false, false⟩
  | .closureUse => ⟨false, true, false⟩
  | .unaryExpression => ⟨place.operand, false, false⟩
  | .arrayIndexExpression => if first then ⟨place.element, false, place.element⟩ else reading
  | _ => reading

/-- Operands are defined behind the subject of a loop and in `use` clauses. -/
theorem operand_below (place : Place) (kind : Kind) (first : Bool) : (place.below kind first).operand =
    if kind == .foreachStatement then !first else kind == .closureUse := by
  cases kind <;> cases first <;> rfl

end Place

variable {t : Tree} {place : Place} {i p v n : Nat}

/-! ### Places in a tree -/

namespace Tree

/-- The place of a node. -/
inductive At (t : Tree) : Nat → Place → Prop where
  | orphan {i : Nat} : t.parent i = none → At t i .reading
  | child {i p : Nat} {place : Place} : t.parent i = some p → At t p place →
      At t i (place.below (t.kind p) (t.isFirstChild i))

theorem WellFormed.exists_at (h : t.WellFormed) (i : Nat) : ∃ place, t.At i place := by
  induction i using h.upward with
  | orphan i hnone => exact ⟨.reading, .orphan hnone⟩
  | step i p hp ih =>
    obtain ⟨place, hplace⟩ := ih
    exact ⟨_, .child hp hplace⟩

theorem WellFormed.isFirstChild_of_split (h : t.WellFormed) {before behind : List Nat}
    (hchildren : t.children p = before ++ i :: behind) : t.isFirstChild i = before.isEmpty := by
  rw [isFirstChild, h.indexInParent_eq hchildren]
  cases before <;> rfl

end Tree

namespace UndefinedVariable

theorem isElementWriteWithin_of_at (h : t.WellFormed) (hat : t.At i place) (hk : t.kind i ≠ .program) (hn : i < n) :
    isElementWriteWithin t n i = .ok place.element := by
  induction hat generalizing n with
  | @orphan i hnone =>
    obtain ⟨p, hp⟩ := h.exists_parent_of_kind hk
    rw [hnone] at hp
    cases hp
  | @child i p place hp _ ih =>
    obtain ⟨n, rfl⟩ : ∃ k, n = k + 1 := ⟨n - 1, by omega⟩
    have hlt := h.parent_lt i p hp
    rw [isElementWriteWithin, Tree.parentOf_eq_ok_iff.2 hp]
    simp only [bind, Except.bind]
    cases hkind : t.kind p <;> cases hfirst : t.isFirstChild i <;> try rfl
    exact ih (by rw [hkind]; decide) (by omega)

theorem operand_of_at (hat : t.At i place) : place.operand =
    match t.parent i with
    | some above =>
      if t.kind above == .foreachStatement then !t.isFirstChild i else t.kind above == .closureUse
    | none => false := by
  cases hat with
  | orphan hnone =>
    rw [hnone]
    rfl
  | @child _ p place hp _ =>
    rw [hp]
    exact Place.operand_below place _ _

/-- A variable is defined where it stands if its place defines variables. -/
theorem isDefinition_of_at (h : t.WellFormed) (hat : t.At v place) (hk : t.kind v ≠ .program) :
    isDefinition t v = .ok place.bare := by
  cases hat with
  | orphan hnone =>
    obtain ⟨p, hp⟩ := h.exists_parent_of_kind hk
    rw [hnone] at hp
    cases hp
  | @child _ p place hp hplace =>
    rw [isDefinition, Tree.parentOf_eq_ok_iff.2 hp]
    simp only [bind, Except.bind]
    cases hkind : t.kind p
    case unaryExpression =>
      simp only [Place.below, operand_of_at hplace]
      cases t.parent p with
      | none => rfl
      | some above => exact (apply_ite Except.ok _ _ _).symm
    case arrayIndexExpression =>
      have hsize : p < t.size := Tree.lt_size_of_kind (by rw [hkind]; decide)
      have helement := isElementWriteWithin_of_at h hplace (by rw [hkind]; decide) hsize
      cases hfirst : t.isFirstChild v
      · rfl
      · exact helement
    all_goals cases t.isFirstChild v <;> rfl

end UndefinedVariable

/-! ### Places in an outline -/

namespace Outline

mutual

/-- The variables of an outline in pre-order, each with whether it is defined where it stands. -/
def sites (place : Place) : Outline → List (String × Bool)
  | .node label children =>
    (if label.kind = .var then [(label.image, place.bare)] else []) ++ sitesAll place label.kind true children

/-- The same for the outlines below a node, the first of which is the first child or not. -/
def sitesAll (place : Place) (kind : Kind) (first : Bool) : List Outline → List (String × Bool)
  | [] => []
  | o :: os => o.sites (place.below kind first) ++ sitesAll place kind false os

end

end Outline

namespace Tree

open Outline

/-- A variable with whether it is defined where it stands. -/
def site (t : Tree) (v : Nat) : String × Except RuleError Bool := (t.image v, UndefinedVariable.isDefinition t v)

/-- A decision is reached for a variable. -/
def settled (site : String × Bool) : String × Except RuleError Bool := (site.1, .ok site.2)

mutual

theorem Holds.map_site (h : t.WellFormed) : ∀ {o : Outline} {i : Nat} {place : Place}, t.Holds i o →
    t.At i place → ((t.subtree i).filter fun v => t.kind v == .var).map t.site = (o.sites place).map settled
  | .node label children, i, place, hholds, hat => by
    have hkind : t.kind i = label.kind := congrArg Label.kind hholds.label_eq
    have himage : t.image i = label.image := congrArg Label.image hholds.label_eq
    have hbelow : _ = (sitesAll place (t.kind i) true children).map settled :=
      HoldsAll.map_site h [] hholds.2.2 hholds.2.1 hat
    rw [h.subtree_eq, hholds.2.1, List.filter_cons, sites, List.map_append, ← hkind, ← himage, ← hbelow]
    by_cases hvar : t.kind i = .var
    · have hsite : t.site i = settled (t.image i, place.bare) := by
        rw [site, UndefinedVariable.isDefinition_of_at h hat (by rw [hvar]; decide)]
        rfl
      simp [hvar, hsite]
    · simp [hvar]

theorem HoldsAll.map_site (h : t.WellFormed) : ∀ {os : List Outline} {i p : Nat} {place : Place} (before : List Nat),
    t.HoldsAll i os → t.children p = before ++ places i os → t.At p place →
    (((places i os).flatMap t.subtree).filter fun v => t.kind v == .var).map t.site =
      (sitesAll place (t.kind p) before.isEmpty os).map settled
  | [], _, _, _, _, _, _, _ => rfl
  | o :: os, i, p, place, before, hholds, hchildren, hat => by
    have hplace := At.child (h.parent_of_split hchildren) hat
    rw [h.isFirstChild_of_split hchildren] at hplace
    have hrest : t.children p = (before ++ [i]) ++ places (i + o.size) os := by
      rw [hchildren, places, List.append_assoc, List.singleton_append]
    have hbehind := HoldsAll.map_site h (before ++ [i]) hholds.2 hrest hat
    have hfirst : (before ++ [i]).isEmpty = false := by simp
    rw [hfirst] at hbehind
    rw [places, List.flatMap_cons, List.filter_append, List.map_append, sitesAll, List.map_append,
      Holds.map_site h hholds.1 hplace, hbehind]

end

/-- What is said of the variables below a node follows from its place and the outlines below it. -/
theorem Holds.map_site_below (h : t.WellFormed) {o : Outline} (hholds : t.Holds i o) (hat : t.At i place) :
    (t.descendantsOfKind i .var).map t.site = (sitesAll place o.label.kind true o.children).map settled := by
  have hkind : t.kind i = o.label.kind := congrArg Label.kind hholds.label_eq
  rw [descendantsOfKind, h.descendants_eq_flatMap, hholds.children_eq, ← hkind]
  exact HoldsAll.map_site h [] hholds.below hholds.children_eq hat

end Tree

end PhpInspect
