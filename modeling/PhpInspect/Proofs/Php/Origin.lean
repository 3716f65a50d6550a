import PhpInspect.Proofs.Php.AnalysisTree

/-! # Where the nodes of an analysis tree come from

Every node of the analysis tree of a program stands for one phrase of the program, apart from a few nodes for names
that are no phrases. So whatever holds of the phrases of a program can be read off its tree.
-/

namespace PhpInspect

namespace Php

/-! ### The phrase of a node -/

/-- The kinds of the nodes that may stand for a name, a `use` clause or an anonymous class, which are no phrases. -/
def isIncidental : Kind → Bool
  | .var | .unaryExpression | .closureUse | .variableDeclarator | .classLike => true
  | _ => false

/-- An outline is that of one of some phrases, and the phrase has its root as its own node. -/
def Traced (source : Source) (whole : List AnyPhrase) (o : Outline) : Prop :=
  isIncidental o.label.kind = true ∨
    ∃ q ∈ whole, ∃ role, q.2.label? source role = some o.label ∧ q.2.outline source role = [o]

open Outline Outlining

section

variable {source : Source} {whole : List AnyPhrase} {label : Label} {cs : List Outline}

theorem traced_incidental (h : Everywhere (Traced source whole) cs)
    (hkind : isIncidental label.kind = true := by rfl) : Everywhere (Traced source whole) [.node label cs] :=
  everywhere_node.2 ⟨.inl hkind, h⟩

theorem traced_captureNode (capture : Capture) : Everywhere (Traced source whole) [captureNode source capture] := by
  have hname : Everywhere (Traced source whole) [variableNode source capture.name] := traced_incidental everywhere_nil
  rw [captureNode]
  split_ifs
  · exact traced_incidental hname
  · exact hname

/-- The nodes of a piece are those of a part, or stand for no phrase. -/
theorem traced_piece {piece : Piece AnyPhrase} {role : Role}
    (h : ∀ q, piece.part? = some q → ∀ role, Everywhere (Traced source whole) (q.2.outline source role)) :
    Everywhere (Traced source whole) (piece.outlined source role) := by
  cases piece with
  | shown passing part => exact h part rfl _
  | classed span members => exact traced_incidental (h members rfl .plain)
  | hidden part => exact everywhere_nil
  | var name | param name => exact traced_incidental everywhere_nil
  | captures clause =>
    refine traced_incidental ?_
    induction clause.items with
    | nil => exact everywhere_nil
    | cons capture items ih => exact (traced_captureNode capture).append ih

end

/-- Every outline in the outlines of a phrase is that of a part of it. -/
theorem Phrase.traced (source : Source) {whole : List AnyPhrase} {c : Category} (p : Phrase c) :
    ∀ role, p.parts ⊆ whole → Everywhere (Traced source whole) (p.outline source role) := by
  refine Phrase.induction (motive := fun p => ∀ role, p.parts ⊆ whole → Everywhere _ (p.outline source role)) ?_ p
  intro c p ih role hp
  have hinside : Everywhere (Traced source whole) (p.inside source role) := by
    refine everywhere_flatMap fun piece hpiece => traced_piece fun q hq role => ?_
    have hmem := mem_immediate_of_mem_pieces hpiece hq
    exact ih q hmem role (parts_subset_trans hmem hp)
  have houtline := p.outline_eq source role
  cases hlabel : p.label? source role with
  | none =>
    rw [houtline, hlabel]
    exact hinside
  | some label =>
    rw [hlabel] at houtline
    rw [houtline]
    exact everywhere_node.2 ⟨.inr ⟨⟨c, p⟩, hp p.self_mem_parts, role, hlabel, houtline⟩, hinside⟩

/-! ### Phrases by the kind of their node -/

/-- The form of a phrase with a node of some kind, for the kinds that have few. -/
def HasForm : Kind → AnyPhrase → Prop
  | .assignmentExpression, q => ∃ s target value, q = ⟨.expr, .assign s target value⟩
  | .arguments, q => ∃ s items, q = ⟨.arguments, .arguments s items⟩
  | .foreachStatement, q => ∃ s subject key value body, q = ⟨.stmt, .forEach s subject key value body⟩
  | .function, q => ∃ s id params body, q = ⟨.stmt, .function s id params body⟩
  | .method, q => ∃ s id params body, q = ⟨.member, .method s id params body⟩
  | .scope, q => ∃ s statements, q = ⟨.block, .block s statements⟩
  | .scopeStatement, q =>
    (∃ s statements, q = ⟨.block, .block s statements⟩) ∨ ∃ body : Phrase .body, q = ⟨.body, body⟩
  | .switchLabel, q => ∃ s condition statements, q = ⟨.switchCase, .switchCase s condition statements⟩
  | .tryStatement, q => ∃ s body handlers final, q = ⟨.stmt, .tryCatch s body handlers final⟩
  | .catchStatement, q => ∃ s binder body, q = ⟨.handler, .handler s binder body⟩
  | .finallyStatement, q => ∃ s body, q = ⟨.cleanup, .cleanup s body⟩
  | _, _ => True

theorem hasForm_of_label? {source : Source} {role : Role} {label : Label} {q : AnyPhrase}
    (h : q.2.label? source role = some label) : HasForm label.kind q := by
  obtain ⟨c, p⟩ := q
  cases p with
  | assign s target value => cases h; exact ⟨s, target, value, rfl⟩
  | arguments s items => cases h; exact ⟨s, items, rfl⟩
  | forEach s subject key value body => cases h; exact ⟨s, subject, key, value, body, rfl⟩
  | function s id params body | method s id params body => cases h; exact ⟨s, id, params, body, rfl⟩
  | switchCase s condition statements => cases h; exact ⟨s, condition, statements, rfl⟩
  | tryCatch s body handlers final => cases h; exact ⟨s, body, handlers, final, rfl⟩
  | handler s binder body => cases h; exact ⟨s, binder, body, rfl⟩
  | cleanup s body => cases h; exact ⟨s, body, rfl⟩
  | block s statements =>
    cases role with
    | callableBody => cases h; exact ⟨s, statements, rfl⟩
    | body => cases h
    | _ => cases h; exact .inl ⟨s, statements, rfl⟩
  | stmtBody statement => cases h; exact .inr ⟨_, rfl⟩
  | colonBody s statements => cases h; exact .inr ⟨_, rfl⟩
  | array | throwing => cases role <;> cases h <;> trivial
  | exprStmt s e => cases e <;> cases h <;> trivial
  | _ => cases h <;> trivial

/-! ### Phrases on the tree -/

/-- From a node on, the tree is laid out as a phrase. -/
def Shows (t : Tree) (source : Source) (role : Role) {c : Category} (p : Phrase c) (i : Nat) : Prop :=
  ∃ o, p.outline source role = [o] ∧ t.Holds i o

variable {source : Source} {t : Tree} {i j : Nat} {kind : Kind}

theorem hasForm_of_holds {whole : List AnyPhrase} {o : Outline} (ho : Traced source whole o) (h : t.Holds i o)
    (hi : t.kind i = kind) (hkind : isIncidental kind = false) :
    ∃ q ∈ whole, HasForm kind q ∧ ∃ role, q.2.label? source role = some (t.node i).toLabel ∧
      Shows t source role q.2 i := by
  have hlabel : o.label.kind = kind := by
    rw [← h.label_eq]
    exact hi
  subst hlabel
  rw [Traced, hkind] at ho
  rcases ho with ho | ⟨q, hq, role, hnode, houtline⟩
  · cases ho
  · have hform := hasForm_of_label? hnode
    rw [← h.label_eq] at hnode
    exact ⟨q, hq, hform, role, hnode, o, houtline, h⟩

/-- Below a node that shows a phrase, the nodes show parts of the phrase. -/
theorem Shows.exists_below {c : Category} {p : Phrase c} {role : Role} (h : Shows t source role p i)
    (hwf : t.WellFormed) (hj : i ∈ t.ancestors j) (hkind : t.kind j = kind) (hincidental : isIncidental kind = false) :
    ∃ q ∈ p.parts, HasForm kind q ∧ ∃ role, q.2.label? source role = some (t.node j).toLabel ∧
      Shows t source role q.2 j := by
  obtain ⟨o, houtline, hholds⟩ := h
  obtain ⟨q, hq, hj⟩ := hholds.exists_below hwf hj
  rw [← houtline] at hq
  exact hasForm_of_holds (p.traced source role (List.Subset.refl _) q hq) hj hkind hincidental

/-- The children of the node of a phrase are those of its pieces. -/
theorem Shows.exists_piece {c : Category} {p : Phrase c} {role : Role} {label : Label} (h : Shows t source role p i)
    (hlabel : p.label? source role = some label) (hwf : t.WellFormed) (hj : t.parent j = some i) :
    ∃ piece ∈ p.pieces, ∃ o ∈ piece.outlined source role, t.Holds j o := by
  obtain ⟨o, houtline, hholds⟩ := h
  rw [p.outline_eq, hlabel] at houtline
  cases houtline
  obtain ⟨o, ho, hj⟩ := hholds.exists_child hwf hj
  obtain ⟨piece, hpiece, ho⟩ := List.mem_flatMap.1 ho
  exact ⟨piece, hpiece, o, ho, hj⟩

/-- The nodes of a tree show phrases of a program, each the one whose own node it is. -/
def Depicts (t : Tree) (source : Source) (program : List AnyPhrase) : Prop :=
  ∀ i kind, t.kind i = kind → kind ≠ .program → isIncidental kind = false →
    ∃ q ∈ program, HasForm kind q ∧ ∃ role, q.2.label? source role = some (t.node i).toLabel ∧
      Shows t source role q.2 i

theorem depicts_treeOf (source : Source) (statements : List Stmt) :
    Depicts (treeOf source statements) source (Phrase.ofList statements).parts := by
  rintro i kind rfl hprogram hkind
  have hroot : 1 ≤ i := by
    refine Nat.one_le_iff_ne_zero.2 fun hzero => hprogram ?_
    rw [hzero]
    exact congrArg (·.kind) (node_root_treeOf source statements)
  obtain ⟨o, ho, hi⟩ := exists_holds_treeOf source statements hroot (Tree.lt_size_of_kind hprogram)
  rw [outlines_eq] at ho
  exact hasForm_of_holds ((Phrase.ofList statements).traced source .plain (List.Subset.refl _) o ho) hi rfl hkind

end Php

end PhpInspect
