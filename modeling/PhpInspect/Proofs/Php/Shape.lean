import Mathlib.Data.List.Forall2
import PhpInspect.Proofs.Php.Origin

/-! # The shape of analysis trees

The rules find what they look for by position: the first child of an assignment is its target, the third child of a
list of arguments stands for the third argument. That they may do so follows from two facts. An expression adds one
child to the node it is put below, whatever it is, and the children of a node show the parts of the phrase in order.
-/

namespace PhpInspect

open Outline

theorem Tree.HoldsAll.forall₂ {t : Tree} {i : Nat} {os : List Outline} (h : t.HoldsAll i os) :
    List.Forall₂ t.Holds (places i os) os := by
  induction os generalizing i with
  | nil => exact .nil
  | cons o os ih => exact .cons h.1 (ih h.2)

namespace Php

variable {source : Source} {role : Role} {t : Tree} {c : Category} {test : Kind → Bool} {i : Nat} {is : List Nat}

/-! ### Phrases with one node -/

theorem exists_outline_eq (source : Source) (p : Phrase c) (role : Role)
    (hc : c.slot role = some (.one test)) : ∃ o, p.outline source role = [o] := by
  have hfills := (p.conforms source role).fills
  rw [hc] at hfills
  generalize hks : (p.outline source role).map (·.label.kind) = ks at hfills
  cases hfills with
  | one _ hnil =>
    cases hnil
    obtain ⟨o, ho, -⟩ := List.map_eq_singleton_iff.1 hks
    exact ⟨o, ho⟩

/-- A phrase with one node is shown by the first of the nodes that it is laid out on, with others behind it. -/
theorem exists_shows_cons {p : Phrase c} {os : List Outline} (hc : c.slot role = some (.one test))
    (h : List.Forall₂ t.Holds is (p.outline source role ++ os)) :
    ∃ j js, is = j :: js ∧ Shows t source role p j ∧ List.Forall₂ t.Holds js os := by
  obtain ⟨o, ho⟩ := exists_outline_eq source p role hc
  rw [ho] at h
  cases h with
  | cons hj hjs => exact ⟨_, _, rfl, ⟨o, ho, hj⟩, hjs⟩

theorem forall₂_shows {ps : List (Phrase c)} (hc : c.slot role = some (.one test))
    (h : List.Forall₂ t.Holds is ((Phrase.ofList ps).outline source role)) :
    List.Forall₂ (Shows t source role) ps is := by
  induction ps generalizing is with
  | nil =>
    cases h
    exact .nil
  | cons p ps ih =>
    rw [Phrase.ofList, Phrase.outline_cons] at h
    obtain ⟨j, js, rfl, hj, hjs⟩ := exists_shows_cons hc h
    exact .cons hj (ih hjs)

theorem exists_shows_option {p : Option (Phrase c)} {os : List Outline} (hc : c.slot role = some (.one test))
    (h : List.Forall₂ t.Holds is ((Phrase.ofOption p).outline source role ++ os)) :
    ∃ (j : Option Nat) (js : List Nat), is = j.toList ++ js ∧ Option.Rel (Shows t source role) p j ∧
      List.Forall₂ t.Holds js os := by
  cases p with
  | none => exact ⟨none, is, rfl, .none, h⟩
  | some p =>
    rw [Phrase.ofOption, Phrase.outline_some] at h
    obtain ⟨j, js, rfl, hj, hjs⟩ := exists_shows_cons hc h
    exact ⟨some j, js, rfl, .some hj, hjs⟩

theorem Phrase.exists_eq_ofList : ∀ ps : Phrase (.list c), ∃ items, ps = ofList items
  | .nil => ⟨[], rfl⟩
  | .cons p ps => by
    obtain ⟨items, rfl⟩ := ps.exists_eq_ofList
    exact ⟨p :: items, rfl⟩

theorem Phrase.exists_eq_ofOption (p : Phrase (.option c)) : ∃ item, p = ofOption item := by
  cases p with
  | none => exact ⟨Option.none, rfl⟩
  | some p => exact ⟨Option.some p, rfl⟩

theorem forall₂_holds_children {o : Outline} (h : t.Holds i o) : List.Forall₂ t.Holds (t.children i) o.children := by
  rw [h.children_eq]
  exact h.below.forall₂

/-- Whatever an expression is, lowering it adds one child to the node it is put below. -/
theorem children_run_lower (e : Expr) (role : Role) {p : Nat} (hp : p < t.size) :
    ((e.lower source role p).run t).2.children p = t.children p ++ [t.size] := by
  obtain ⟨o, ho⟩ := exists_outline_eq source e role rfl
  rw [e.grafts source role p t, ho, Tree.children, Tree.node_graftAll [o] hp hp, if_pos rfl]
  rfl

/-! ### The parts of a phrase in order -/

theorem Shows.assign {s : Span} {target value : Expr} (h : Shows t source role (.assign s target value) i) :
    ∃ a b, t.children i = [a, b] ∧ Shows t source .target target a ∧ Shows t source .plain value b := by
  obtain ⟨o, ho, hholds⟩ := h
  cases ho
  obtain ⟨a, is, hi, ha, his⟩ := exists_shows_cons (p := target) rfl (forall₂_holds_children hholds)
  obtain ⟨b, js, rfl, hb, hnil⟩ := exists_shows_cons (p := value) rfl his
  cases hnil
  exact ⟨a, b, hi, ha, hb⟩

theorem Shows.arguments {s : Span} {items : List (Phrase .argument)}
    (h : Shows t source role (.arguments s (.ofList items)) i) :
    List.Forall₂ (Shows t source .plain) items (t.children i) := by
  obtain ⟨o, ho, hholds⟩ := h
  cases ho
  have hchildren : List.Forall₂ t.Holds (t.children i) ((Phrase.ofList items).outline source .plain ++ []) :=
    forall₂_holds_children hholds
  rw [List.append_nil] at hchildren
  exact forall₂_shows rfl hchildren

theorem Shows.forEach {s : Span} {subject value : Expr} {key : Option Expr} {body : Phrase .body}
    (h : Shows t source role (.forEach s subject (.ofOption key) value body) i) :
    ∃ a keys b c, t.children i = a :: (keys.toList ++ [b, c]) ∧ Shows t source .plain subject a ∧
      Option.Rel (Shows t source .target) key keys ∧ Shows t source .target value b ∧
      Shows t source .plain body c := by
  obtain ⟨o, ho, hholds⟩ := h
  cases ho
  obtain ⟨a, is, hi, ha, his⟩ := exists_shows_cons (p := subject) rfl (forall₂_holds_children hholds)
  obtain ⟨keys, js, rfl, hkeys, hjs⟩ := exists_shows_option (p := key) rfl his
  obtain ⟨b, ks, rfl, hb, hks⟩ := exists_shows_cons (p := value) rfl hjs
  obtain ⟨c, ls, rfl, hc, hnil⟩ := exists_shows_cons (p := body) rfl hks
  cases hnil
  exact ⟨a, keys, b, c, hi, ha, hkeys, hb, hc⟩

theorem Shows.method {s id : Span} {params : Phrase .parameters} {body : Option (Phrase .block)}
    (h : Shows t source role (.method s id params (.ofOption body)) i) :
    t.isAbstract i = body.isNone ∧ ∃ a bodies, t.children i = a :: bodies.toList ∧ Shows t source .plain params a ∧
      Option.Rel (Shows t source .callableBody) body bodies := by
  obtain ⟨o, ho, hholds⟩ := h
  cases ho
  have habstract : t.isAbstract i = body.isNone := by
    have hlabel := congrArg Label.isAbstract hholds.label_eq
    cases body <;> exact hlabel
  obtain ⟨a, is, hi, ha, his⟩ := exists_shows_cons (p := params) rfl (forall₂_holds_children hholds)
  obtain ⟨bodies, js, rfl, hbodies, hnil⟩ := exists_shows_option (p := body) rfl his
  cases hnil
  rw [List.append_nil] at hi
  exact ⟨habstract, a, bodies, hi, ha, hbodies⟩

/-! ### The shape of a program -/

/-- A tree has the documented shape and shows some phrases. -/
structure Shaped (source : Source) (program : List AnyPhrase) (t : Tree) : Prop where
  grammatical : t.Grammatical
  closureUse : ∀ i p, t.kind i = .closureUse → t.parent i = some p → t.kind p = .closure
  method : ∀ i, t.kind i = .method → ∃ role s id params body a bodies,
    ⟨.member, .method s id params (.ofOption body)⟩ ∈ program ∧
    Shows t source role (.method s id params (.ofOption body)) i ∧ t.isAbstract i = body.isNone ∧
    t.children i = a :: bodies.toList ∧ Shows t source .plain params a ∧
    Option.Rel (Shows t source .callableBody) body bodies
  assignment : ∀ i, t.kind i = .assignmentExpression → ∃ role s target value a b,
    ⟨.expr, .assign s target value⟩ ∈ program ∧ Shows t source role (.assign s target value) i ∧
    t.children i = [a, b] ∧ Shows t source .target target a ∧ Shows t source .plain value b
  forEach : ∀ i, t.kind i = .foreachStatement → ∃ role s subject key value body a keys b c,
    ⟨.stmt, .forEach s subject (.ofOption key) value body⟩ ∈ program ∧
    Shows t source role (.forEach s subject (.ofOption key) value body) i ∧
    t.children i = a :: (keys.toList ++ [b, c]) ∧ Shows t source .plain subject a ∧
    Option.Rel (Shows t source .target) key keys ∧ Shows t source .target value b ∧ Shows t source .plain body c
  arguments : ∀ i, t.kind i = .arguments → ∃ role s items,
    ⟨.arguments, .arguments s (.ofList items)⟩ ∈ program ∧ Shows t source role (.arguments s (.ofList items)) i ∧
    List.Forall₂ (Shows t source .plain) items (t.children i)

/-- An expression adds one child wherever it is put, and the analysis tree of a program has the documented shape. -/
theorem shaped_treeOf (source : Source) :
    (∀ (e : Expr) (role : Role) (t : Tree) (p : Nat), p < t.size →
      ((e.lower source role p).run t).2.children p = t.children p ++ [t.size]) ∧
    ∀ statements : List Stmt, Shaped source (Phrase.ofList statements).parts (treeOf source statements) := by
  refine ⟨fun e role t p hp => children_run_lower e role hp, fun statements => ?_⟩
  have hwf := wellFormed_treeOf source statements
  have hgrammar := grammatical_treeOf source statements
  have hdepicts := depicts_treeOf source statements
  refine ⟨hgrammar, fun i p hi hp => hgrammar.kind_parent_of_closureUse hwf hi hp, ?_, ?_, ?_, ?_⟩
  · intro i hi
    obtain ⟨q, hq, ⟨s, id, params, body, rfl⟩, role, -, hshows⟩ := hdepicts i _ hi nofun rfl
    obtain ⟨body, rfl⟩ := body.exists_eq_ofOption
    obtain ⟨habstract, a, bodies, hchildren⟩ := hshows.method
    exact ⟨role, s, id, params, body, a, bodies, hq, hshows, habstract, hchildren⟩
  · intro i hi
    obtain ⟨q, hq, ⟨s, target, value, rfl⟩, role, -, hshows⟩ := hdepicts i _ hi nofun rfl
    obtain ⟨a, b, hchildren⟩ := hshows.assign
    exact ⟨role, s, target, value, a, b, hq, hshows, hchildren⟩
  · intro i hi
    obtain ⟨q, hq, ⟨s, subject, key, value, body, rfl⟩, role, -, hshows⟩ := hdepicts i _ hi nofun rfl
    obtain ⟨key, rfl⟩ := key.exists_eq_ofOption
    obtain ⟨a, keys, b, c, hchildren⟩ := hshows.forEach
    exact ⟨role, s, subject, key, value, body, a, keys, b, c, hq, hshows, hchildren⟩
  · intro i hi
    obtain ⟨q, hq, ⟨s, items, rfl⟩, role, -, hshows⟩ := hdepicts i _ hi nofun rfl
    obtain ⟨items, rfl⟩ := items.exists_eq_ofList
    exact ⟨role, s, items, hq, hshows, hshows.arguments⟩

def keyedLoop : Source := .ofText "<?php foreach (f(...$a, b: 1) as $k => [$v]) $x = $v;"

/-- The loop of `keyedLoop`. -/
def keyedLoopStatement : Stmt :=
  .forEach ⟨6, 53⟩
    (.call ⟨15, 29⟩ (.name ⟨15, 16⟩) (.arguments ⟨16, 29⟩ (.ofList [.spreadArgument (.ofVar (.direct ⟨20, 22⟩)),
      .namedArgument ⟨24, 28⟩ ⟨24, 25⟩ (.literal ⟨27, 28⟩)])))
    (.some (.ofVar (.direct ⟨33, 35⟩)))
    (.array ⟨39, 43⟩ (.ofList [.single (.ofVar (.direct ⟨40, 42⟩))]))
    (.stmtBody (.exprStmt ⟨45, 53⟩ (.assign ⟨45, 52⟩ (.ofVar (.direct ⟨45, 47⟩)) (.ofVar (.direct ⟨50, 52⟩)))))

theorem shaped_keyedLoop :
    let t := treeOf keyedLoop [keyedLoopStatement]
    let program := (Phrase.ofList [keyedLoopStatement]).parts
    (1 < t.size ∧ (((Phrase.list ⟨39, 43⟩ .nil).lower keyedLoop .target 1).run t).2.children 1 =
      t.children 1 ++ [t.size]) ∧
    t.kind 3 = .arguments ∧ t.children 3 = [4, 5] ∧
    (∃ role s items, ⟨.arguments, .arguments s (.ofList items)⟩ ∈ program ∧
      Shows t keyedLoop role (.arguments s (.ofList items)) 3 ∧
      List.Forall₂ (Shows t keyedLoop .plain) items [4, 5]) ∧
    t.kind 12 = .assignmentExpression ∧
    ∃ role s target value a b, ⟨.expr, .assign s target value⟩ ∈ program ∧
      Shows t keyedLoop role (.assign s target value) 12 ∧ t.children 12 = [a, b] ∧
      Shows t keyedLoop .target target a ∧ Shows t keyedLoop .plain value b := by
  intro t program
  have hsize : 1 < t.size := by decide +kernel
  have harguments : t.kind 3 = .arguments := by decide +kernel
  have hchildren : t.children 3 = [4, 5] := by decide +kernel
  have hassignment : t.kind 12 = .assignmentExpression := by decide +kernel
  have hshaped := (shaped_treeOf keyedLoop).2 [keyedLoopStatement]
  refine ⟨⟨hsize, (shaped_treeOf keyedLoop).1 _ .target _ 1 hsize⟩, harguments, hchildren, ?_, hassignment,
    hshaped.assignment 12 hassignment⟩
  rw [← hchildren]
  exact hshaped.arguments 3 harguments

end Php

end PhpInspect
