import PhpInspect.Proofs.Php.Grammar
import PhpInspect.Rule.Basic

/-! # The analysis tree of a program

The analysis tree of a program is a well-formed tree on which the outlines of its statements are laid out, and every
node of it obeys the grammar. The grammar gives the rules the children and parents that they look for.
-/

namespace PhpInspect

/-! ### Reading the grammar -/

theorem Slot.Fills.mem_of_only {ss : List Slot} {ks : List Kind} {k : Kind} (h : Slot.Fills ss ks)
    (hk : Slot.only k ∈ ss) : k ∈ ks := by
  induction h with
  | nil => cases hk
  | one htest _ ih =>
    rcases List.mem_cons.1 hk with heq | hk
    · injection heq with heq
      rw [← heq, beq_iff_eq] at htest
      exact htest ▸ List.mem_cons_self
    · exact List.mem_cons_of_mem _ (ih hk)
  | present _ _ ih =>
    rcases List.mem_cons.1 hk with heq | hk
    · cases heq
    · exact List.mem_cons_of_mem _ (ih hk)
  | absent _ ih | done _ ih =>
    rcases List.mem_cons.1 hk with heq | hk
    · cases heq
    · exact ih hk
  | more _ _ ih => exact List.mem_cons_of_mem _ (ih hk)

namespace Kind

variable {k : Kind} {isAbstract isCase : Bool}

theorem isCallable_of_isUnit (hk : k.isUnit = true) : k.isCallable = true := by
  cases k <;> cases hk <;> rfl

theorem eq_closure (hcall : k.isCallable = true) (hunit : ¬k.isUnit = true) : k = .closure := by
  cases k <;> cases hcall
  · exact absurd rfl hunit
  · exact absurd rfl hunit
  · rfl

/-- A node of one kind may have a child of another. -/
def admits (isAbstract isCase : Bool) (k child : Kind) : Bool := (k.slots isAbstract isCase).any (·.test child)

theorem formalParameters_mem_slots (hk : k.isCallable = true) :
    Slot.only .formalParameters ∈ k.slots isAbstract isCase := by
  cases k <;> cases hk
  · exact List.mem_cons_self
  · cases isAbstract <;> exact List.mem_cons_self
  · exact List.mem_cons_self

theorem scope_mem_slots (hk : k.isUnit = true) : Slot.only .scope ∈ k.slots false isCase := by
  cases k <;> cases hk <;> exact List.mem_cons_of_mem _ List.mem_cons_self

/-- Only a `try` statement has a `finally` clause. -/
theorem eq_of_admits_finallyStatement (h : k.admits isAbstract isCase .finallyStatement = true) :
    k = .tryStatement := by
  revert h
  cases k <;> cases isAbstract <;> cases isCase <;> decide

/-- Only a closure has a `use` clause. -/
theorem eq_of_admits_closureUse (h : k.admits isAbstract isCase .closureUse = true) : k = .closure := by
  revert h
  cases k <;> cases isAbstract <;> cases isCase <;> decide

/-- The kinds in a list of parameters. -/
def isSignature (k : Kind) : Bool := k == .formalParameters || k == .formalParameter || k == .variableDeclarator

/-- Below a list of parameters, and in a method without a body, there is nothing but parameters. -/
theorem isSignature_of_admits {child : Kind} (hk : k.isSignature = true ∨ (k = .method ∧ isAbstract = true))
    (h : k.admits isAbstract isCase child = true) : child.isSignature = true := by
  rcases hk with hk | ⟨rfl, rfl⟩
  · cases k <;> cases hk <;> revert h <;> cases isAbstract <;> cases isCase <;> cases child <;> decide
  · revert h
    cases isCase <;> cases child <;> decide

end Kind

/-! ### Grammatical trees -/

/-- Every node of a tree obeys the grammar. -/
def Tree.Grammatical (t : Tree) : Prop :=
  ∀ i, PhpInspect.Grammatical (t.node i).toLabel ((t.children i).map fun c => (t.node c).toLabel)

namespace Tree

variable {t : Tree} {i c p u v : Nat} {k : Kind}

namespace Grammatical

theorem fills (h : t.Grammatical) (i : Nat) :
    Slot.Fills ((t.kind i).slots (t.isAbstract i) (t.image i == "case")) ((t.children i).map t.kind) := by
  have hfills := (h i).1
  rw [List.map_map] at hfills
  exact hfills

theorem requireChild (h : t.Grammatical)
    (hk : Slot.only k ∈ (t.kind i).slots (t.isAbstract i) (t.image i == "case")) :
    ∃ c, t.requireChild i k = .ok c := by
  obtain ⟨c, hc, hkind⟩ := List.mem_map.1 ((h.fills i).mem_of_only hk)
  have hsome : (t.firstChildOfKind i k).isSome = true :=
    List.find?_isSome.2 ⟨c, hc, beq_iff_eq.2 hkind⟩
  obtain ⟨first, hfirst⟩ := Option.isSome_iff_exists.1 hsome
  exact ⟨first, by rw [Tree.requireChild, hfirst]⟩

theorem requireChild_formalParameters (h : t.Grammatical) (hk : (t.kind i).isCallable = true) :
    ∃ c, t.requireChild i .formalParameters = .ok c :=
  h.requireChild (Kind.formalParameters_mem_slots hk)

theorem requireChild_scope (h : t.Grammatical) (hk : (t.kind i).isUnit = true) (hbody : t.isAbstract i = false) :
    ∃ c, t.requireChild i .scope = .ok c := by
  apply h.requireChild
  rw [hbody]
  exact Kind.scope_mem_slots hk

theorem admits_parent (h : t.Grammatical) (hwf : t.WellFormed) (hp : t.parent c = some p) :
    (t.kind p).admits (t.isAbstract p) (t.image p == "case") (t.kind c) = true := by
  have hmem : t.kind c ∈ (t.children p).map t.kind := List.mem_map_of_mem ((hwf.mem_children p c).2 hp)
  obtain ⟨s, hs, htest⟩ := (h.fills p).exists_slot hmem
  exact List.any_eq_true.2 ⟨s, hs, htest⟩

theorem kind_parent_of_finallyStatement (h : t.Grammatical) (hwf : t.WellFormed)
    (hc : t.kind c = .finallyStatement) (hp : t.parent c = some p) : t.kind p = .tryStatement := by
  have hadmits := h.admits_parent hwf hp
  rw [hc] at hadmits
  exact Kind.eq_of_admits_finallyStatement hadmits

theorem kind_parent_of_closureUse (h : t.Grammatical) (hwf : t.WellFormed)
    (hc : t.kind c = .closureUse) (hp : t.parent c = some p) : t.kind p = .closure := by
  have hadmits := h.admits_parent hwf hp
  rw [hc] at hadmits
  exact Kind.eq_of_admits_closureUse hadmits

/-- Below a list of parameters, and in a method without a body, a tree has nothing but parameters. -/
theorem isSignature_below (h : t.Grammatical) (hwf : t.WellFormed)
    (hu : (t.kind u).isSignature = true ∨ (t.kind u = .method ∧ t.isAbstract u = true)) (hv : u ∈ t.ancestors v) :
    (t.kind v).isSignature = true := by
  induction v using hwf.upward with
  | orphan v hnone => simp [ancestors_of_parent_none hnone] at hv
  | step v p hp ih =>
    have hadmits := h.admits_parent hwf hp
    rw [hwf.ancestors_of_parent hp, List.mem_cons] at hv
    rcases hv with rfl | hv
    · exact Kind.isSignature_of_admits hu hadmits
    · exact Kind.isSignature_of_admits (.inl (ih hv)) hadmits

/-- A method without a body has nothing below it but its parameters. -/
theorem isSignature_below_abstract (h : t.Grammatical) (hwf : t.WellFormed) (hu : t.isAbstract u = true)
    (hv : u ∈ t.ancestors v) : (t.kind v).isSignature = true :=
  h.isSignature_below hwf (.inr ⟨(h u).2 hu, hu⟩) hv

end Grammatical

end Tree

/-! ### Programs -/

namespace Php

open Outline

variable (source : Source) (statements rest : List Stmt)

/-- The outlines of the statements of a file. -/
def outlines : List Outline := statements.flatMap fun statement => statement.outline source .plain

theorem outlines_eq : outlines source statements = (Phrase.ofList statements).outline source .plain :=
  (Phrase.outline_ofList statements).symm

theorem outlines_append : outlines source (statements ++ rest) = outlines source statements ++ outlines source rest :=
  List.flatMap_append

theorem conforms_outlines : Conforms [.many Kind.isStatement] (outlines source statements) := by
  rw [outlines_eq]
  exact (Phrase.ofList statements).conforms source .plain

/-- The statements of a file are lowered one after the other. -/
theorem treeOf_eq : treeOf source statements =
    (Tree.empty 1 source.lines.lineCount).graftAll Tree.root (outlines source statements) := by
  have hgrafts : Grafts (fun parent => statements.forM fun statement => statement.lower source .plain parent)
      (outlines source statements) := by
    induction statements with
    | nil => exact .nil
    | cons statement rest ih => exact (statement.grafts source .plain).seq ih
  exact congrArg Prod.snd (hgrafts Tree.root _)

theorem built_treeOf : (treeOf source statements).Built := by
  rw [treeOf_eq]
  exact Tree.Built.graftAll _ (.empty 1 _) (by simp [Tree.root])

theorem wellFormed_treeOf : (treeOf source statements).WellFormed := (built_treeOf source statements).wellFormed

theorem size_treeOf : (treeOf source statements).size = 1 + sizeAll (outlines source statements) := by
  rw [treeOf_eq, Tree.size_graftAll, Tree.size_empty]

theorem holdsAll_treeOf : (treeOf source statements).HoldsAll 1 (outlines source statements) := by
  rw [treeOf_eq]
  exact Tree.holdsAll_graftAll (t := Tree.empty 1 source.lines.lineCount) _ (by simp [Tree.root])

theorem node_root_treeOf : (treeOf source statements).node Tree.root =
    { (Tree.empty 1 source.lines.lineCount).node Tree.root with
      children := places 1 (outlines source statements) } := by
  have hroot : Tree.root < (Tree.empty 1 source.lines.lineCount).size := by simp [Tree.root]
  rw [treeOf_eq, Tree.node_graftAll _ hroot hroot, if_pos rfl]
  rfl

theorem children_root_treeOf :
    (treeOf source statements).children Tree.root = places 1 (outlines source statements) := by
  rw [Tree.children, node_root_treeOf]

/-- Every node but the root stands for an outline in the outlines of the statements. -/
theorem exists_holds_treeOf {i : Nat} (hpos : 1 ≤ i) (hi : i < (treeOf source statements).size) :
    ∃ o, Within o (outlines source statements) ∧ (treeOf source statements).Holds i o := by
  rw [size_treeOf] at hi
  have hholds := holdsAll_treeOf source statements
  obtain ⟨o, ho, hi, -⟩ := Tree.HoldsAll.locate (k := 0) _ hholds hholds hpos hi
  exact ⟨o, ho, hi⟩

theorem units_treeOf : (treeOf source statements).units =
    ((places 1 (outlines source statements)).flatMap (treeOf source statements).subtree).filter fun i =>
      ((treeOf source statements).kind i).isUnit := by
  rw [Tree.units, (wellFormed_treeOf source statements).descendants_eq_flatMap, children_root_treeOf]

theorem grammatical_treeOf : (treeOf source statements).Grammatical := by
  intro i
  have hconforms := conforms_outlines source statements
  have hholds := holdsAll_treeOf source statements
  by_cases hi : i < (treeOf source statements).size
  · rw [size_treeOf] at hi
    by_cases hroot : i = Tree.root
    · subst hroot
      rw [Tree.children, node_root_treeOf]
      dsimp only
      rw [hholds.map_label]
      refine ⟨?_, nofun⟩
      rw [List.map_map]
      exact hconforms.fills
    · have hpos : 1 ≤ i := Nat.one_le_iff_ne_zero.2 hroot
      exact hholds.licensed hconforms.licensed hpos hi
  · have hout : (treeOf source statements).size ≤ i := by omega
    rw [Tree.children_of_size_le hout, Tree.node_of_size_le hout]
    exact ⟨.done .nil, nofun⟩

end Php

end PhpInspect
