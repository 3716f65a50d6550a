import Mathlib.Data.List.Induction
import PhpInspect.Proofs.Path
import PhpInspect.Proofs.Php.DocumentOrder
import PhpInspect.Proofs.Php.Shape
import PhpInspect.Proofs.Rule.Definitions
import PhpInspect.Proofs.Rule.Settings

/-! # Outputs of `preg_match` in a program

A variable is taken for an output of `preg_match` by its place in the analysis tree: it is the third child of the list
of arguments of a call with a fitting name. In the program it is then the third argument, up to parentheses. An argument
behind `...` leaves no trace of the dots in the tree, so that it counts as well; a named argument has a node of its own
and does not.
-/

namespace PhpInspect

open Outline

variable {t : Tree} {i p v : Nat} {before behind : List Nat}

namespace UndefinedVariable

/-- The name of `preg_match` or `preg_match_all`, in whatever namespace and case of the letters. -/
def isMatchName (name : String) : Bool := (baseName name).toLower ∈ ["preg_match", "preg_match_all"]

theorem baseName_of_append {front segment : List Char} (hfront : front = [] ∨ front.getLast? = some '\\')
    (hsegment : '\\' ∉ segment) : baseName (String.ofList (front ++ segment)) = String.ofList segment := by
  have hlast : (Text.segments '\\' (front ++ segment)).getLast? = some segment := by
    rcases hfront with rfl | hfront
    · simp [Text.segments_of_not_mem hsegment]
    · obtain ⟨front, rfl⟩ := List.getLast?_eq_some_iff.1 hfront
      rw [List.append_assoc, List.singleton_append, Text.segments_append, Text.segments_of_not_mem hsegment,
        List.getLast?_concat]
  rw [baseName, String.toList_ofList, hlast, Option.getD_some]

theorem exists_last_segment (cs : List Char) :
    ∃ front segment, cs = front ++ segment ∧ (front = [] ∨ front.getLast? = some '\\') ∧ '\\' ∉ segment := by
  induction cs using List.reverseRecOn with
  | nil => exact ⟨[], [], rfl, .inl rfl, List.not_mem_nil⟩
  | append_singleton cs c ih =>
    by_cases hc : c = '\\'
    · exact ⟨cs ++ [c], [], by simp, .inr (by simp [hc]), List.not_mem_nil⟩
    · obtain ⟨front, segment, rfl, hfront, hsegment⟩ := ih
      exact ⟨front, segment ++ [c], by simp, hfront, by simp [hsegment, Ne.symm hc]⟩

/-- What counts of a name is what stands behind its last backslash. -/
theorem isMatchName_iff (name : String) : isMatchName name = true ↔
    ∃ front segment, name.toList = front ++ segment ∧ (front = [] ∨ front.getLast? = some '\\') ∧ '\\' ∉ segment ∧
      (String.ofList segment).toLower ∈ ["preg_match", "preg_match_all"] := by
  have hbase : ∀ {front segment}, name.toList = front ++ segment → (front = [] ∨ front.getLast? = some '\\') →
      '\\' ∉ segment → baseName name = String.ofList segment := by
    intro front segment hname hfront hsegment
    rw [← baseName_of_append hfront hsegment, ← hname, String.ofList_toList]
  rw [isMatchName, decide_eq_true_iff]
  constructor
  · intro hmatch
    obtain ⟨front, segment, hname, hfront, hsegment⟩ := exists_last_segment name.toList
    rw [hbase hname hfront hsegment] at hmatch
    exact ⟨front, segment, hname, hfront, hsegment, hmatch⟩
  · rintro ⟨front, segment, hname, hfront, hsegment, hmatch⟩
    rwa [hbase hname hfront hsegment]

/-- A node stands for a call of `preg_match` or `preg_match_all`. -/
def isMatchCall (t : Tree) (i : Nat) : Bool := t.kind i == .functionPostfix && isMatchName (t.image i)

/-- A node stands right below such a call. -/
def isBelowMatch (t : Tree) (i : Nat) : Bool := (t.parent i).any (isMatchCall t)

theorem isOutput_iff (hp : t.parent v = some p) : IsOutput t v ↔
    isBelowMatch t p = true ∧ t.kind p = .arguments ∧ t.child? p 2 = some v := by
  simp only [IsOutput, hp, Option.some.injEq, exists_and_left, isBelowMatch, Option.any_eq_true, isMatchCall,
    Bool.and_eq_true, beq_iff_eq, isMatchName, decide_eq_true_iff, exists_eq_left']
  tauto

theorem isOutput_of_split (h : t.WellFormed) (hchildren : t.children p = before ++ i :: behind) :
    IsOutput t i ↔ isBelowMatch t p = true ∧ t.kind p = .arguments ∧ before.length = 2 := by
  have hnodup : (t.children p).Nodup := (h.children_sorted p).imp Nat.ne_of_lt
  have hlength : before.length < (t.children p).length := by simp [hchildren]
  have hthird : t.child? p 2 = some i ↔ before.length = 2 := by
    rw [← Tree.child?_length hchildren, Tree.child?, Tree.child?, eq_comm]
    exact List.getElem?_inj hlength hnodup
  rw [isOutput_iff (h.parent_of_split hchildren), hthird]

theorem isPregMatchOutput_eq_decide (h : t.WellFormed) (hv : t.kind v ≠ .program) :
    isPregMatchOutput t v = .ok (decide (IsOutput t v)) := by
  by_cases houtput : IsOutput t v
  · simpa [houtput] using isPregMatchOutput_eq_true_iff.2 houtput
  · simpa [houtput] using (isPregMatchOutput_eq_false_iff h hv).2 houtput

end UndefinedVariable

open UndefinedVariable

/-! ### Outputs in an outline -/

namespace Outline

mutual

/-- The variables of an outline in pre-order, each with whether it is an output. The outline may stand right below a
call of `preg_match`, or be the third of its arguments. -/
def outputs (belowMatch third : Bool) : Outline → List (String × Bool)
  | .node label children =>
    (if label.kind = .var then [(label.image, third)] else []) ++
      outputsAll (label.kind == .functionPostfix && isMatchName label.image)
        (belowMatch && label.kind == .arguments) 0 children

/-- The same for the outlines below a node, from a position on. -/
def outputsAll (belowMatch arguments : Bool) (index : Nat) : List Outline → List (String × Bool)
  | [] => []
  | o :: os => o.outputs belowMatch (arguments && index == 2) ++ outputsAll belowMatch arguments (index + 1) os

end

variable {belowMatch : Bool} {index : Nat} {os : List Outline}

theorem outputsAll_eq_flatMap (arguments : Bool) (h : arguments = true → 3 ≤ index ∨ index + os.length ≤ 2) :
    outputsAll belowMatch arguments index os = os.flatMap (outputs belowMatch false) := by
  induction os generalizing index with
  | nil => rfl
  | cons o os ih =>
    rw [List.length_cons] at h
    have hthird : (arguments && index == 2) = false := by
      cases arguments with
      | false => rfl
      | true =>
        have := h rfl
        simp
        omega
    rw [outputsAll, List.flatMap_cons, hthird, ih]
    intro harguments
    have := h harguments
    omega

theorem outputsAll_false (belowMatch : Bool) (index : Nat) (os : List Outline) :
    outputsAll belowMatch false index os = os.flatMap (outputs belowMatch false) :=
  outputsAll_eq_flatMap false fun h => absurd h Bool.false_ne_true

end Outline

namespace Tree

/-- A variable with whether it is an output. -/
def outputSite (t : Tree) (v : Nat) : String × Except RuleError Bool := (t.image v, isPregMatchOutput t v)

mutual

theorem Holds.map_outputSite (h : t.WellFormed) : ∀ {o : Outline} {i : Nat}, t.Holds i o →
    ((t.subtree i).filter fun v => t.kind v == .var).map t.outputSite =
      (o.outputs (isBelowMatch t i) (decide (IsOutput t i))).map settled
  | .node label children, i, hholds => by
    have hkind : t.kind i = label.kind := congrArg Label.kind hholds.label_eq
    have himage : t.image i = label.image := congrArg Label.image hholds.label_eq
    have hbelow := HoldsAll.map_outputSite h [] hholds.2.2 hholds.2.1
    rw [h.subtree_eq, hholds.2.1, List.filter_cons, outputs, List.map_append, ← hkind, ← himage]
    rw [isMatchCall, List.length_nil] at hbelow
    rw [← hbelow]
    by_cases hvar : t.kind i = .var
    · have hsite : t.outputSite i = settled (t.image i, decide (IsOutput t i)) := by
        rw [outputSite, isPregMatchOutput_eq_decide h (by rw [hvar]; decide)]
        rfl
      simp [hvar, hsite]
    · simp [hvar]

theorem HoldsAll.map_outputSite (h : t.WellFormed) : ∀ {os : List Outline} {i p : Nat} (before : List Nat),
    t.HoldsAll i os → t.children p = before ++ places i os →
    (((places i os).flatMap t.subtree).filter fun v => t.kind v == .var).map t.outputSite =
      (outputsAll (isMatchCall t p) (isBelowMatch t p && t.kind p == .arguments) before.length os).map settled
  | [], _, _, _, _, _ => rfl
  | o :: os, i, p, before, hholds, hchildren => by
    have hcalled : isBelowMatch t i = isMatchCall t p := by
      rw [isBelowMatch, h.parent_of_split hchildren, Option.any_some]
    have houtput : decide (IsOutput t i) = (isBelowMatch t p && t.kind p == .arguments && before.length == 2) := by
      rw [Bool.eq_iff_iff, decide_eq_true_iff, isOutput_of_split h hchildren]
      simp [and_assoc]
    have hrest : t.children p = (before ++ [i]) ++ places (i + o.size) os := by
      rw [hchildren, places, List.append_assoc, List.singleton_append]
    have hbehind := HoldsAll.map_outputSite h (before ++ [i]) hholds.2 hrest
    rw [List.length_append, List.length_singleton] at hbehind
    rw [places, List.flatMap_cons, List.filter_append, List.map_append, outputsAll, List.map_append,
      Holds.map_outputSite h hholds.1, hcalled, houtput, hbehind]

end

end Tree

/-! ### Outputs in a program -/

namespace Php

open Outlining

variable {source : Source} {os os' cs : List Outline} {us us' : List (Span × Bool)} {ms ms' : List Mention}
  {label : Label}

namespace Phrase

/-- The variable that a phrase consists of, up to parentheses. -/
def bare? : {c : Category} → Phrase c → Option Span
  | _, .direct s => Option.some s
  | _, .ofVar v => v.bare?
  | _, .paren _ e => e.bare?
  | _, _ => Option.none

/-- The variable that an argument hands over as a whole. One behind `...` does so only if `spread` says that the dots do
not matter, and a named one never does. -/
def handed? (spread : Bool) : Phrase .argument → Option Span
  | .positional e => e.bare?
  | .spreadArgument e => if spread then e.bare? else Option.none
  | .namedArgument _ _ _ => Option.none

/-- The third of some arguments. -/
def third? : Phrase .arguments → Option (Phrase .argument)
  | .arguments _ (.cons _ (.cons _ (.cons third _))) => Option.some third
  | _ => Option.none

/-- The variable that a call has as its output. -/
def output? (source : Source) (spread : Bool) (callee : Expr) (args : Phrase .arguments) : Option Span :=
  if callee.isName && isMatchName (source.text callee.span) then args.third?.bind (handed? spread) else Option.none

end Phrase

/-- The places in a piece where a variable is named outright, those of each member of a sequence apart. -/
def Piece.cells : Piece (List (List (Span × Bool))) → List (List (Span × Bool))
  | .shown _ part | .classed _ part => part
  | .hidden _ | .param _ => []
  | .var name => [[(name, false)]]
  | .captures clause => [clause.items.map fun capture => (capture.name, false)]

/-- The places in a phrase, given those in its pieces. A call has the place of its output in that of its third
argument. -/
def AnyPhrase.cells (source : Source) (spread : Bool) :
    AnyPhrase → List (List (List (Span × Bool))) → List (List (Span × Bool))
  | ⟨_, .nil⟩, _ => []
  | ⟨_, .cons _ _⟩, [head, tail] => head.flatten :: tail
  | ⟨_, .arguments _ _⟩, [items] => items
  | ⟨_, .call _ callee args⟩, [front, items] =>
    [front.flatten ++ ((callee.output? source spread args).elim items fun x => items.set 2 [(x, true)]).flatten]
  | _, pieces => [pieces.flatten.flatten]

namespace Phrase

variable {c : Category}

def cells (source : Source) (spread : Bool) (p : Phrase c) : List (List (Span × Bool)) :=
  p.fold fun x pieces => AnyPhrase.cells source spread x (pieces.map fun piece => (piece.map Prod.snd).cells)

/-- The places where a phrase names a variable outright, each with whether the variable is an output of `preg_match`
there. -/
def uses (source : Source) (spread : Bool) (p : Phrase c) : List (Span × Bool) := (p.cells source spread).flatten

end Phrase

/-! ### The third argument -/

theorem outputs_of_ne_var (hkind : (label.kind == .var) = false) (third : Bool) :
    [Outline.node label cs].flatMap (outputs false third) =
      outputsAll (label.kind == .functionPostfix && isMatchName label.image) false 0 cs := by
  simp [outputs, beq_eq_false_iff_ne.1 hkind]

/-- The only variable that can be the output is the one that the phrase consists of. -/
def Hands (source : Source) {c : Category} (p : Phrase c) : Prop :=
  (p.outline source .plain).flatMap (outputs false true) =
    p.bare?.elim ((p.outline source .plain).flatMap (outputs false false)) fun x => [(source.text x, true)]

theorem hands_of_label? {c : Category} {p : Phrase c} (h : p.label? source .plain = some label := by rfl)
    (hbare : p.bare? = none := by rfl) (hkind : (label.kind == .var) = false := by rfl) : Hands source p := by
  rw [Hands, hbare, p.outline_eq, h, below, Option.elim_none, outputs_of_ne_var hkind, outputs_of_ne_var hkind]

theorem hands_of_part {c d : Category} {p : Phrase c} {q : Phrase d} (h : Hands source q) (hbare : p.bare? = q.bare?)
    (houtline : p.outline source .plain = q.outline source .plain ++ []) : Hands source p := by
  rw [Hands, hbare, houtline, List.append_nil]
  exact h

theorem Phrase.hands : ∀ {c : Category} (p : Phrase c), c = .expr ∨ c = .var → Hands source p
  | _, .direct _, _ => rfl
  | _, .ofVar v, _ => hands_of_part (v.hands (.inr rfl)) rfl rfl
  | _, .paren _ e, _ => hands_of_part (e.hands (.inl rfl)) rfl rfl
  | _, .indirect .., _ | _, .nested .., _ | _, .name .., _ | _, .constant .., _ | _, .literal .., _
  | _, .callable .., _ | _, .arrow .., _ | _, .matching .., _ | _, .assign .., _ | _, .binary .., _
  | _, .prefixed .., _ | _, .postfixed .., _ | _, .conditional .., _ | _, .call .., _ | _, .methodCall .., _
  | _, .member .., _ | _, .index .., _ | _, .append .., _ | _, .array .., _ | _, .legacyArray .., _ | _, .list .., _
  | _, .closure .., _ | _, .instantiate .., _ | _, .anonymousClass .., _ | _, .isset .., _ | _, .keyword .., _
  | _, .throwing .., _ | _, .exit .., _ | _, .yieldValue .., _ | _, .yieldPair .., _ | _, .pipe .., _
  | _, .interpolated .., _ => hands_of_label?

/-- An argument as the third one: the dots before it do not matter. -/
theorem outputs_argument (a : Phrase .argument) : (a.outline source .plain).flatMap (outputs false true) =
    (a.handed? true).elim ((a.outline source .plain).flatMap (outputs false false))
      fun x => [(source.text x, true)] := by
  cases a with
  | positional e | spreadArgument e =>
    have hhands : Hands source e := e.hands (.inl rfl)
    change (e.outline source .plain ++ []).flatMap _ = e.bare?.elim ((e.outline source .plain ++ []).flatMap _) _
    rwa [List.append_nil]
  | namedArgument s id e => exact (hands_of_label? : Hands source (.namedArgument s id e))

/-- Of all arguments only the third one can be an output. -/
theorem outputsAll_arguments (first second third : Phrase .argument) (os : List Outline) :
    outputsAll false true 0 (first.outline source .plain ++ (second.outline source .plain ++
        (third.outline source .plain ++ os))) =
      (first.outline source .plain).flatMap (outputs false false) ++
        ((second.outline source .plain).flatMap (outputs false false) ++
          ((third.outline source .plain).flatMap (outputs false true) ++ os.flatMap (outputs false false))) := by
  obtain ⟨o, ho⟩ := exists_outline_eq source first .plain rfl
  obtain ⟨o', ho'⟩ := exists_outline_eq source second .plain rfl
  obtain ⟨o'', ho''⟩ := exists_outline_eq source third .plain rfl
  simp [ho, ho', ho'', outputsAll, outputsAll_eq_flatMap]

/-! ### Nothing lost and nothing invented -/

/-- A variable as the analysis tree shows it. -/
def shown (source : Source) (use : Span × Bool) : String × Bool := (source.text use.1, use.2)

/-- The variables in some outlines are those of some uses, and these are all that is mentioned. -/
structure Used (source : Source) (os : List Outline) (us : List (Span × Bool)) (ms : List Mention) : Prop where
  outputs_eq : os.flatMap (outputs false false) = us.map (shown source)
  names_eq : us.map Prod.fst = ms.filterMap Mention.var?

namespace Used

theorem nil : Used source [] [] [] := ⟨rfl, rfl⟩

theorem append (h : Used source os us ms) (h' : Used source os' us' ms') :
    Used source (os ++ os') (us ++ us') (ms ++ ms') where
  outputs_eq := by rw [List.flatMap_append, List.map_append, h.outputs_eq, h'.outputs_eq]
  names_eq := by rw [List.map_append, List.filterMap_append, h.names_eq, h'.names_eq]

theorem var (name : Span) : Used source [variableNode source name] [(name, false)] [.var name] := ⟨rfl, rfl⟩

theorem flatMap {α : Type} {f : α → List Outline} {g : α → List (Span × Bool)} {h : α → List Mention} {xs : List α}
    (hused : ∀ x ∈ xs, Used source (f x) (g x) (h x)) : Used source (xs.flatMap f) (xs.flatMap g) (xs.flatMap h) := by
  induction xs with
  | nil => exact .nil
  | cons x xs ih => exact (hused x List.mem_cons_self).append (ih fun y hy => hused y (List.mem_cons_of_mem _ hy))

/-- A node that is neither a variable nor a call changes nothing. -/
theorem node (h : Used source cs us ms)
    (hkind : (label.kind == .var || label.kind == .functionPostfix) = false := by rfl) :
    Used source [.node label cs] us ms := by
  rw [Bool.or_eq_false_iff] at hkind
  refine ⟨?_, h.names_eq⟩
  rw [outputs_of_ne_var hkind.1, hkind.2, Bool.false_and, outputsAll_false, h.outputs_eq]

/-- A function or method mentions itself, which is no variable. -/
theorem unit (h : Used source os us ms) (x : AnyPhrase) : Used source os us (AnyPhrase.unit x ++ ms) := by
  rw [AnyPhrase.unit]
  split_ifs
  · exact ⟨h.outputs_eq, h.names_eq⟩
  · exact h

theorem param (name : Span) : Used source [declaratorNode source name] [] [.param name] := ⟨rfl, rfl⟩

theorem capture (capture : Capture) :
    Used source [captureNode source capture] [(capture.name, false)] [.var capture.name] := by
  rw [captureNode]
  split_ifs
  · exact (Used.var capture.name).node
  · exact .var capture.name

end Used

namespace Piece

def places (source : Source) (spread : Bool) (piece : Piece AnyPhrase) : List (List (Span × Bool)) :=
  (piece.map fun q => q.2.cells source spread).cells

def uses (source : Source) (spread : Bool) (piece : Piece AnyPhrase) : List (Span × Bool) :=
  (piece.places source spread).flatten

theorem used {piece : Piece AnyPhrase} {role : Role}
    (h : ∀ q, piece.part? = some q →
      ∀ role, Used source (q.2.outline source role) (q.2.uses source true) q.2.mentions) :
    Used source (piece.outlined source role) (piece.uses source true) piece.mentioned := by
  cases piece with
  | shown passing part => exact h part rfl _
  | classed span members => exact (h members rfl .plain).node
  | hidden part => exact .nil
  | var name => exact .var name
  | param name => exact .param name
  | captures clause =>
    refine Used.node ?_
    change Used source (clause.items.map _) ((clause.items.map _) ++ []) (clause.items.map _)
    rw [List.append_nil, List.map_eq_flatMap, List.map_eq_flatMap, List.map_eq_flatMap]
    exact .flatMap fun item _ => .capture item

end Piece

theorem flatten_map_flatten {α β : Type} (f : α → List (List β)) (xs : List α) :
    (xs.map f).flatten.flatten = xs.flatMap fun x => (f x).flatten := by
  induction xs with
  | nil => rfl
  | cons x xs ih => rw [List.map_cons, List.flatten_cons, List.flatten_append, ih, List.flatMap_cons]

namespace Phrase

variable {c : Category} {spread : Bool}

def isCall : {c : Category} → Phrase c → Bool
  | _, .call _ _ _ => true
  | _, _ => false

theorem cells_eq (p : Phrase c) :
    p.cells source spread = AnyPhrase.cells source spread ⟨c, p⟩ (p.pieces.map (Piece.places source spread)) := by
  rw [cells, fold_eq, List.map_map]
  simp only [Function.comp_def, Piece.map_map]
  rfl

/-- A phrase other than a call has the places of its pieces. -/
theorem uses_eq (p : Phrase c) (h : p.isCall = false) :
    p.uses source spread = p.pieces.flatMap (Piece.uses source spread) := by
  rw [uses, cells_eq]
  cases p with
  | nil => rfl
  | cons head tail => exact congrArg (head.uses source spread ++ ·) (List.append_nil _).symm
  | arguments s items => exact (List.append_nil _).symm
  | call => cases h
  | _ => exact (List.append_nil _).trans (flatten_map_flatten _ _)

/-- Only calls have the nodes that matter, but for variables. -/
theorem isCall_eq (source : Source) (role : Role) (p : Phrase c) : p.isCall =
    (p.label? source role).any fun label => label.kind == .var || label.kind == .functionPostfix := by
  cases p with
  | array | throwing | block => cases role <;> rfl
  | exprStmt s e => cases e <;> rfl
  | _ => rfl

end Phrase

theorem used_of_pieces {c : Category} {p : Phrase c} {role : Role} (hcall : p.isCall = false)
    (h : ∀ q ∈ p.immediate, ∀ role, Used source (q.2.outline source role) (q.2.uses source true) q.2.mentions) :
    Used source (p.outline source role) (p.uses source true) p.mentions := by
  have hinside : Used source (p.inside source role) (p.pieces.flatMap (Piece.uses source true))
      (p.pieces.flatMap Piece.mentioned) :=
    .flatMap fun piece hpiece => Piece.used fun q hq => h q (Phrase.mem_immediate_of_mem_pieces hpiece hq)
  have hlabel := p.isCall_eq source role
  rw [hcall] at hlabel
  rw [p.outline_eq, p.uses_eq hcall, p.mentions_eq]
  refine Used.unit ?_ _
  cases hnode : p.label? source role with
  | none => exact hinside
  | some label =>
    rw [hnode] at hlabel
    exact hinside.node hlabel.symm

/-! ### Calls -/

namespace Phrase

theorem mentions_of_bare? {c : Category} (p : Phrase c) {x : Span} (h : p.bare? = Option.some x) :
    p.mentions = [.var x] := by
  fun_induction bare? p with
  | case1 s =>
    cases h
    rfl
  | case2 v ih => exact (List.append_nil _).trans (ih h)
  | case3 s e ih => exact (List.append_nil _).trans (ih h)
  | case4 => cases h

theorem mentions_of_handed? {a : Phrase .argument} {x : Span} (h : a.handed? true = Option.some x) :
    a.mentions = [.var x] := by
  cases a with
  | positional e | spreadArgument e => exact (List.append_nil _).trans (e.mentions_of_bare? h)
  | namedArgument => cases h

variable {s s' : Span} {callee : Expr} {args : Phrase .arguments} {role : Role} {as : List (Phrase .argument)}

theorem cells_ofList (as : List (Phrase .argument)) :
    (ofList as).cells source spread = as.map fun a => a.uses source spread := by
  induction as with
  | nil => rfl
  | cons a as ih =>
    rw [List.map_cons, ← ih]
    rfl

theorem pieces_call : (call s callee args).pieces =
    [if callee.isName then .hidden ⟨_, callee⟩ else .shown (.as .plain) ⟨_, callee⟩,
      .shown (.as .plain) ⟨_, args⟩] := by
  cases callee <;> rfl

theorem mentions_ofList (as : List (Phrase .argument)) : (ofList as).mentions = as.flatMap mentions := by
  induction as with
  | nil => rfl
  | cons a as ih =>
    rw [List.flatMap_cons, ← ih]
    exact congrArg (a.mentions ++ ·) (List.append_nil _)

theorem immediate_call : (call s callee args).immediate = [⟨_, callee⟩, ⟨_, args⟩] := by
  cases callee <;> rfl

theorem mem_parts_ofList {as : List (Phrase .argument)} {a : Phrase .argument} (h : a ∈ as) :
    ⟨_, a⟩ ∈ (ofList as).parts := by
  induction h with
  | head as => exact mem_parts.2 (.inr ⟨_, .head _, a.self_mem_parts⟩)
  | tail b h ih => exact mem_parts.2 (.inr ⟨_, .tail _ (.head _), ih⟩)

theorem outline_call : (call s callee (.arguments s' (.ofList as))).outline source role =
    [spanning source .functionPostfix (if callee.isName then source.text callee.span else "") s
      ((if callee.isName then [] else callee.outline source .plain) ++
        [spanning source .arguments "" s' (as.flatMap fun a => a.outline source .plain)])] := by
  rw [← outline_ofList, ← List.append_nil ((ofList as).outline source .plain)]
  cases callee <;> rfl

theorem uses_call : (call s callee (.arguments s' (.ofList as))).uses source true =
    (if callee.isName then [] else callee.uses source true) ++
      ((callee.output? source true (.arguments s' (.ofList as))).elim (as.map (uses source true)) fun x =>
        (as.map (uses source true)).set 2 [(x, true)]).flatten := by
  rw [uses, cells_eq, pieces_call, ← cells_ofList]
  by_cases hname : callee.isName = true
  · rw [if_pos hname, if_pos hname]
    exact List.append_nil _
  · rw [if_neg hname, if_neg hname]
    exact List.append_nil _

theorem mentions_call : (call s callee (.arguments s' (.ofList as))).mentions =
    (if callee.isName then [] else callee.mentions) ++ as.flatMap mentions := by
  have hargs : (arguments s' (ofList as)).mentions ++ [] = as.flatMap mentions := by
    rw [List.append_nil, ← mentions_ofList]
    exact List.append_nil _
  rw [mentions_eq, pieces_call, ← hargs]
  by_cases hname : callee.isName = true
  · rw [if_pos hname, if_pos hname]
    rfl
  · rw [if_neg hname, if_neg hname]
    rfl

theorem output?_eq (callee : Expr) (s : Span) (as : List (Phrase .argument)) :
    callee.output? source spread (.arguments s (.ofList as)) =
      if callee.isName && isMatchName (source.text callee.span) then as[2]?.bind (handed? spread) else Option.none := by
  have hthird : (arguments s (ofList as)).third? = as[2]? := by
    match as with
    | [] | [_] | [_, _] | _ :: _ :: _ :: _ => rfl
  rw [output?, hthird]

end Phrase

/-- The arguments of a call by name are looked at by their position if the name fits. -/
theorem outputs_call (name : String) (s s' : Span) (cs : List Outline) :
    [spanning source .functionPostfix name s ([] ++ [spanning source .arguments "" s' cs])].flatMap
      (outputs false false) = outputsAll false (isMatchName name) 0 cs := by
  have hkind : (Kind.arguments == Kind.functionPostfix) = false := rfl
  simp [spanning, labelOn, outputs, outputsAll, hkind]

theorem outputs_plain_call (s s' : Span) (os cs : List Outline) :
    [spanning source .functionPostfix "" s (os ++ [spanning source .arguments "" s' cs])].flatMap
      (outputs false false) = os.flatMap (outputs false false) ++ cs.flatMap (outputs false false) := by
  have hempty : isMatchName "" = false := by decide +kernel
  simp [spanning, labelOn, outputs, hempty, outputsAll_eq_flatMap]

/-- The arguments of a call with what they use. -/
def Members (source : Source) (as : List (Phrase .argument)) : Prop :=
  ∀ a ∈ as, Used source (a.outline source .plain) (a.uses source true) a.mentions

theorem Members.used {as : List (Phrase .argument)} (h : Members source as) :
    Used source (as.flatMap fun a => a.outline source .plain) (as.map (Phrase.uses source true)).flatten
      (as.flatMap Phrase.mentions) := .flatMap h

/-- The third argument may be an output. -/
theorem Used.handing {third : Phrase .argument} (h : Used source (third.outline source .plain) us third.mentions) :
    (third.outline source .plain).flatMap (outputs false true) =
      ((third.handed? true).elim us fun x => [(x, true)]).map (shown source) ∧
    ((third.handed? true).elim us fun x => [(x, true)]).map Prod.fst = third.mentions.filterMap Mention.var? := by
  rw [outputs_argument]
  cases hhanded : third.handed? true with
  | none => exact ⟨h.outputs_eq, h.names_eq⟩
  | some x =>
    rw [Phrase.mentions_of_handed? hhanded]
    exact ⟨rfl, rfl⟩

theorem length_outline_arguments (as : List (Phrase .argument)) :
    (as.flatMap fun a => a.outline source .plain).length = as.length := by
  induction as with
  | nil => rfl
  | cons a as ih =>
    obtain ⟨o, ho⟩ := exists_outline_eq source a .plain rfl
    rw [List.flatMap_cons, ho, List.singleton_append, List.length_cons, ih, List.length_cons]

/-- What the arguments of `preg_match` use: the third one may be its output. -/
def matchUses (source : Source) (as : List (Phrase .argument)) : List (Span × Bool) :=
  ((as[2]?.bind (Phrase.handed? true)).elim (as.map (Phrase.uses source true)) fun x =>
    (as.map (Phrase.uses source true)).set 2 [(x, true)]).flatten

theorem matchUses_cons (first second third : Phrase .argument) (rest : List (Phrase .argument)) :
    matchUses source (first :: second :: third :: rest) = first.uses source true ++ (second.uses source true ++
      ((third.handed? true).elim (third.uses source true) (fun x => [(x, true)]) ++
        (rest.map (Phrase.uses source true)).flatten)) := by
  have hthird : (first :: second :: third :: rest)[2]?.bind (Phrase.handed? true) = third.handed? true := rfl
  rw [matchUses, hthird]
  cases third.handed? true <;> rfl

theorem Members.outputsAll_eq {as : List (Phrase .argument)} (h : Members source as) :
    outputsAll false true 0 (as.flatMap fun a => a.outline source .plain) = (matchUses source as).map (shown source) ∧
      (matchUses source as).map Prod.fst = (as.flatMap Phrase.mentions).filterMap Mention.var? := by
  match as with
  | first :: second :: third :: rest =>
    obtain ⟨hfirst, hsecond, hthird, hrest⟩ : Used source _ _ _ ∧ Used source _ _ _ ∧ Used source _ _ _ ∧
        Members source rest := by simpa [Members] using h
    have hhanding := hthird.handing
    rw [matchUses_cons]
    constructor
    · simp only [List.flatMap_cons, outputsAll_arguments, List.map_append, hfirst.outputs_eq, hsecond.outputs_eq,
        hhanding.1, hrest.used.outputs_eq]
    · simp only [List.flatMap_cons, List.map_append, List.filterMap_append, hfirst.names_eq, hsecond.names_eq,
        hhanding.2, hrest.used.names_eq]
  | [] | [_] | [_, _] =>
    refine ⟨?_, h.used.names_eq⟩
    rw [outputsAll_eq_flatMap true fun _ => .inr (by rw [length_outline_arguments]; simp)]
    exact h.used.outputs_eq

/-- The arguments of a call are looked at in one of two ways. -/
theorem used_call {s s' : Span} {callee : Expr} {as : List (Phrase .argument)} {role : Role}
    (hcallee : Used source (callee.outline source .plain) (callee.uses source true) callee.mentions)
    (h : Members source as) : Used source ((Phrase.call s callee (.arguments s' (.ofList as))).outline source role)
      ((Phrase.call s callee (.arguments s' (.ofList as))).uses source true)
      (Phrase.call s callee (.arguments s' (.ofList as))).mentions := by
  rw [Phrase.outline_call, Phrase.uses_call, Phrase.mentions_call, Phrase.output?_eq]
  cases hname : callee.isName with
  | false =>
    refine ⟨(outputs_plain_call s s' _ _).trans ?_, ?_⟩
    · rw [List.map_append]
      exact congrArg₂ _ hcallee.outputs_eq h.used.outputs_eq
    · rw [List.map_append, List.filterMap_append]
      exact congrArg₂ _ hcallee.names_eq h.used.names_eq
  | true =>
    rw [Bool.true_and, if_pos rfl, if_pos rfl, if_pos rfl, List.nil_append]
    cases hmatch : isMatchName (source.text callee.span) with
    | false =>
      refine ⟨(outputs_call _ s s' _).trans ?_, h.used.names_eq⟩
      rw [hmatch, outputsAll_false]
      exact h.used.outputs_eq
    | true =>
      refine ⟨(outputs_call _ s s' _).trans ?_, h.outputsAll_eq.2⟩
      rw [hmatch]
      exact h.outputsAll_eq.1

/-- The analysis tree shows the variables that a phrase uses, and an output as an output. -/
theorem Phrase.used (source : Source) {c : Category} (p : Phrase c) :
    ∀ role, Used source (p.outline source role) (p.uses source true) p.mentions := by
  refine Phrase.strongInduction (motive := fun p => ∀ role, Used source (p.outline source role) (p.uses source true)
    p.mentions) ?_ p
  intro c p ih role
  cases hcall : p.isCall with
  | false => exact used_of_pieces hcall fun q hq => ih q hq q q.2.self_mem_parts
  | true =>
    cases p with
    | call s callee args =>
      match args with
      | .arguments s' items =>
        obtain ⟨as, rfl⟩ := items.exists_eq_ofList
        rw [immediate_call] at ih
        refine used_call (ih _ (.head _) _ callee.self_mem_parts .plain) fun a ha => ?_
        have hpart := parts_subset_of_mem_immediate (p := .arguments s' (ofList as)) (.head _) (mem_parts_ofList ha)
        exact ih _ (.tail _ (.head _)) _ hpart .plain
    | _ => cases hcall

/-! ### Programs -/

section Programs

variable (source : Source) (statements : List Stmt)

theorem map_outputSite_treeOf :
    ((treeOf source statements).descendantsOfKind Tree.root .var).map (treeOf source statements).outputSite =
      ((outlines source statements).flatMap (outputs false false)).map Tree.settled := by
  have hwf := wellFormed_treeOf source statements
  have hchildren := children_root_treeOf source statements
  have hcall : isMatchCall (treeOf source statements) Tree.root = false := by
    rw [isMatchCall, hwf.kind_root]
    rfl
  have hbelow : isBelowMatch (treeOf source statements) Tree.root = false := by
    rw [isBelowMatch, hwf.parent_root]
    rfl
  rw [Tree.descendantsOfKind, hwf.descendants_eq_flatMap, hchildren,
    Tree.HoldsAll.map_outputSite hwf [] (holdsAll_treeOf source statements) hchildren, hcall, hbelow,
    Bool.false_and, outputsAll_false]

/-- The variables that a program names outright are shown in its tree in their order, each as an output of `preg_match`
exactly if it is, up to parentheses, the third argument of a call whose callee is a name with `preg_match` or
`preg_match_all` as its last segment, and this argument is not a named one. Dots before the argument make no
difference. -/
theorem outputs_in_source_order :
    ((treeOf source statements).descendantsOfKind Tree.root .var).map (treeOf source statements).outputSite =
      ((Phrase.ofList statements).uses source true).map (fun use => Tree.settled (shown source use)) ∧
    ((Phrase.ofList statements).uses source true).map Prod.fst = (Phrase.ofList statements).variableNames ∧
    ∀ name, isMatchName name = true ↔
      ∃ front segment, name.toList = front ++ segment ∧ (front = [] ∨ front.getLast? = some '\\') ∧ '\\' ∉ segment ∧
        (String.ofList segment).toLower ∈ ["preg_match", "preg_match_all"] := by
  have hused := (Phrase.ofList statements).used source .plain
  refine ⟨?_, hused.names_eq, isMatchName_iff⟩
  rw [map_outputSite_treeOf, outlines_eq, hused.outputs_eq, List.map_map]
  rfl

end Programs

/-- Calls with a qualified name, with a named argument and through an object. -/
def matchCalls : String := "<?php A\\PREG_match(1, $a, (($b)), $c); preg_match(1, 2, m: $d); $e->preg_match(1, 2, $f);"

example : ((Phrase.ofList (Program.ofText matchCalls).statements).uses (Source.ofText matchCalls) false).map
    (shown (Source.ofText matchCalls)) =
      [("$a", false), ("$b", true), ("$c", false), ("$d", false), ("$e", false), ("$f", false)] := by decide +kernel

def spreadCall : String := "<?php preg_match(1, 2, ...$m);"

/-- A variable behind `...` is no variable that the call can fill, but it counts as one. -/
theorem spread_counts_as_output :
    ((treeOf (Source.ofText spreadCall) (Program.ofText spreadCall).statements).descendantsOfKind Tree.root .var).map
        (treeOf (Source.ofText spreadCall) (Program.ofText spreadCall).statements).outputSite ≠
      ((Phrase.ofList (Program.ofText spreadCall).statements).uses (Source.ofText spreadCall) false).map
        fun use => Tree.settled (shown (Source.ofText spreadCall) use) := by decide +kernel

end Php

end PhpInspect
