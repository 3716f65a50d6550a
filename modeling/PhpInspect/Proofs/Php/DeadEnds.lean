import PhpInspect.Proofs.Php.Mentions
import PhpInspect.Rule.UnreachableCode

/-! # Dead ends of a program

A dead end is a `return` or `throw` statement with another statement behind it in the same list of statements. The
lists are the bodies of functions, methods and closures, blocks, bodies between a colon and a keyword, and cases; a
body without braces is a list of one statement, and the statements of a namespace stand in the list around it. A dead
end belongs to the innermost function or method around it.
-/

namespace PhpInspect

namespace Php

/-- A `return` statement, or a statement that consists of a `throw`. -/
def Phrase.isTerminator : {c : Category} → Phrase c → Bool
  | _, .ret _ _ | _, .exprStmt _ (.throwing _ _) => true
  | _, _ => false

/-- A statement that ends its list. -/
abbrev Terminator := { q : AnyPhrase // q.2.isTerminator = true }

/-- The keyword that a terminator begins with. -/
def Terminator.word (e : Terminator) : String :=
  match e.val with
  | ⟨_, .ret _ _⟩ => "return"
  | _ => "throw"

end Php

/-- What a phrase or an outline holds, in the order of the source: the dead ends of the unit around it, and the units in
it, each with its dead ends. Those in a closure belong to the unit around the closure. -/
structure Survey (α β : Type) where
  own : List α
  units : List (β × List α)

namespace Survey

variable {α β : Type}

def empty : Survey α β := ⟨[], []⟩

instance : Append (Survey α β) := ⟨fun a b => ⟨a.own ++ b.own, a.units ++ b.units⟩⟩

/-- A function or method takes the dead ends inside of it. -/
def unit (u : β) (body : Survey α β) : Survey α β := ⟨[], (u, body.own) :: body.units⟩

/-- A `return` or `throw` with what its value holds. -/
def terminator (followed : Bool) (e : α) (value : Survey α β) : Survey α β :=
  ⟨if followed then e :: value.own else value.own, value.units⟩

end Survey

namespace Php

variable {c : Category}

/-- Whether there is a statement in a list of statements, those of a namespace standing in the list around it. -/
def Phrase.hasStatement : {c : Category} → Phrase c → Bool
  | _, .cons head tail => head.hasStatement || tail.hasStatement
  | _, .some value => value.hasStatement
  | _, .namespaced _ statements => statements.hasStatement
  | .stmt, _ => true
  | _, _ => false

/-- The parts of a phrase stand in the list of statements around it. -/
def Phrase.isRun : {c : Category} → Phrase c → Bool
  | _, .nil | _, .none | _, .cons _ _ | _, .some _ | _, .namespaced _ _ => true
  | _, _ => false

def Piece.hasStatement : Piece AnyPhrase → Bool
  | .shown _ q => q.2.hasStatement
  | _ => false

/-- What a piece holds, given whether a statement stands behind it. What is not shown counts if `hidden` says so. -/
def Piece.survey (hidden followed : Bool) :
    Piece (Bool → Survey Terminator Declaration) → Survey Terminator Declaration
  | .shown _ part => part followed
  | .classed _ members => members false
  | .hidden part => if hidden then part followed else .empty
  | _ => .empty

/-- What the pieces of a phrase hold, given whether a statement stands behind the last of them. -/
def surveyPieces (hidden followed : Bool) :
    List (Piece (AnyPhrase × (Bool → Survey Terminator Declaration))) → Survey Terminator Declaration
  | [] => .empty
  | piece :: pieces =>
    (piece.map Prod.snd).survey hidden ((pieces.any fun next => (next.map Prod.fst).hasStatement) || followed)
      ++ surveyPieces hidden followed pieces

/-- What a phrase holds, given what its pieces hold. -/
def AnyPhrase.survey (x : AnyPhrase) (followed : Bool) (inside : Survey Terminator Declaration) :
    Survey Terminator Declaration :=
  if h : x.2.isDeclaration = true then .unit ⟨x, h⟩ inside
  else if h : x.2.isTerminator = true then .terminator followed ⟨x, h⟩ inside
  else inside

/-- The dead ends and units of a phrase; `followed` says whether a statement stands behind it. What the analysis tree
holds as a leaf, and so hides from the rules, is surveyed if `hidden` says so. -/
def Phrase.survey (hidden : Bool) (p : Phrase c) (followed : Bool) : Survey Terminator Declaration :=
  p.fold (fun x pieces followed =>
    AnyPhrase.survey x followed (surveyPieces hidden (x.2.isRun && followed) pieces)) followed

/-- The survey of some pieces from those of their parts. -/
def surveyOf (hidden : Bool) (pieces : List (Piece AnyPhrase)) (followed : Bool) : Survey Terminator Declaration :=
  surveyPieces hidden followed (pieces.map (Piece.map fun q => (q, q.2.survey hidden)))

theorem Phrase.survey_eq (hidden followed : Bool) (p : Phrase c) :
    p.survey hidden followed = AnyPhrase.survey ⟨c, p⟩ followed (surveyOf hidden p.pieces (p.isRun && followed)) := by
  rw [survey, fold_eq]
  rfl

def Piece.surveyed (hidden : Bool) (piece : Piece AnyPhrase) (followed : Bool) : Survey Terminator Declaration :=
  (piece.map fun q => q.2.survey hidden).survey hidden followed

theorem surveyOf_cons (hidden followed : Bool) (piece : Piece AnyPhrase) (pieces : List (Piece AnyPhrase)) :
    surveyOf hidden (piece :: pieces) followed =
      piece.surveyed hidden (pieces.any Piece.hasStatement || followed) ++ surveyOf hidden pieces followed := by
  have hsame : ∀ next : Piece AnyPhrase, (next.map fun q => q).hasStatement = next.hasStatement := by
    intro next
    cases next <;> rfl
  rw [surveyOf, List.map_cons, surveyPieces, Piece.map_map, List.any_map]
  simp only [Function.comp_def, Piece.map_map, hsame]
  rfl

end Php

/-! ### Surveys of outlines -/

namespace Survey

variable {α β : Type}

theorem append_empty (s : Survey α β) : s ++ empty = s := by
  change (⟨s.own ++ [], s.units ++ []⟩ : Survey α β) = s
  rw [List.append_nil, List.append_nil]

theorem append_assoc (a b c : Survey α β) : a ++ b ++ c = a ++ (b ++ c) := by
  change (⟨a.own ++ b.own ++ c.own, a.units ++ b.units ++ c.units⟩ : Survey α β) = ⟨_, _⟩
  rw [List.append_assoc, List.append_assoc]
  rfl

end Survey

namespace Outline

open UnreachableCode

mutual

/-- The dead ends and units of an outline; `followed` says whether a sibling stands behind it. -/
def survey (followed : Bool) : Outline → Survey Outline Outline
  | .node label children =>
    if label.kind.isUnit then .unit (.node label children) (surveyAll false children)
    else if isTerminator label.kind then .terminator followed (.node label children) (surveyAll false children)
    else surveyAll false children

def surveyAll (followed : Bool) : List Outline → Survey Outline Outline
  | [] => .empty
  | o :: os => o.survey (!os.isEmpty || followed) ++ surveyAll followed os

end

theorem isEmpty_append (os os' : List Outline) : (os ++ os').isEmpty = (os.isEmpty && os'.isEmpty) := by
  cases os <;> rfl

theorem surveyAll_append (followed : Bool) (os os' : List Outline) :
    surveyAll followed (os ++ os') = surveyAll (!os'.isEmpty || followed) os ++ surveyAll followed os' := by
  induction os with
  | nil => rfl
  | cons o os ih =>
    rw [List.cons_append, surveyAll, surveyAll, ih, Survey.append_assoc, isEmpty_append, Bool.not_and, Bool.or_assoc]

theorem surveyAll_singleton (followed : Bool) (o : Outline) : surveyAll followed [o] = o.survey followed := by
  rw [surveyAll, surveyAll, Survey.append_empty]
  rfl

end Outline

namespace Php

open Outline

theorem Terminator.exists_outline (source : Source) (e : Terminator) : ∃ o, e.val.2.outline source .plain = [o] := by
  obtain ⟨⟨c, p⟩, he⟩ := e
  cases p with
  | ret => exact ⟨_, rfl⟩
  | exprStmt s value =>
    cases value with
    | throwing => exact ⟨_, rfl⟩
    | _ => cases he
  | _ => cases he

def Terminator.outlines (source : Source) (e : Terminator) : List Outline := e.val.2.outline source .plain

end Php

namespace Survey

open Php

/-- What outlines hold of which a phrase has a survey. -/
def outlined (source : Source) (s : Survey Terminator Declaration) : Survey Outline Outline :=
  ⟨s.own.flatMap (·.outlines source),
    s.units.flatMap fun u => (u.1.val.2.outline source .plain).map (·, u.2.flatMap (·.outlines source))⟩

variable {source : Source} {s : Survey Terminator Declaration}

theorem outlined_append (a b : Survey Terminator Declaration) :
    (a ++ b).outlined source = a.outlined source ++ b.outlined source := by
  change (⟨(a.own ++ b.own).flatMap _, (a.units ++ b.units).flatMap _⟩ : Survey Outline Outline) = _
  rw [List.flatMap_append, List.flatMap_append]
  rfl

theorem outlined_unit {d : Declaration} {o : Outline} (h : d.val.2.outline source .plain = [o]) :
    (unit d s).outlined source = unit o (s.outlined source) := by
  rw [outlined, unit, List.flatMap_cons, h]
  rfl

theorem outlined_terminator {followed : Bool} {e : Terminator} {o : Outline} (h : e.outlines source = [o]) :
    (terminator followed e s).outlined source = terminator followed o (s.outlined source) := by
  cases followed with
  | false => rfl
  | true =>
    change (⟨(e :: s.own).flatMap _, _⟩ : Survey Outline Outline) = _
    rw [List.flatMap_cons, h]
    rfl

end Survey

namespace Outline

open UnreachableCode

variable {source : Source} {os os' : List Outline} {s s' : Survey Php.Terminator Php.Declaration} {label : Label}

/-- A node that is neither a unit nor a terminator only holds what stands below it. -/
theorem surveyAll_node (followed : Bool) (hk : (label.kind.isUnit || isTerminator label.kind) = false := by rfl) :
    surveyAll followed [.node label os] = surveyAll false os := by
  rw [Bool.or_eq_false_iff] at hk
  rw [surveyAll_singleton, survey, hk.1, hk.2, if_neg Bool.false_ne_true, if_neg Bool.false_ne_true]

theorem surveyAll_unit {d : Php.Declaration} (followed : Bool) (h : surveyAll false os = s.outlined source)
    (hd : d.val.2.outline source .plain = [.node label os]) (hk : label.kind.isUnit = true) :
    surveyAll followed [.node label os] = (Survey.unit d s).outlined source := by
  rw [surveyAll_singleton, survey, if_pos hk, h, Survey.outlined_unit hd]

theorem surveyAll_terminator {e : Php.Terminator} (followed : Bool) (h : surveyAll false os = s.outlined source)
    (he : e.outlines source = [.node label os]) (hunit : label.kind.isUnit = false)
    (hk : isTerminator label.kind = true) :
    surveyAll followed [.node label os] = (Survey.terminator followed e s).outlined source := by
  rw [surveyAll_singleton, survey, hunit, if_neg Bool.false_ne_true, if_pos hk, h, Survey.outlined_terminator he]

end Outline

/-! ### Phrases and their outlines -/

namespace Php

open Outline Outlining UnreachableCode

variable {c : Category} {source : Source} {role : Role}

/-- The categories in which statements follow each other. -/
def Category.holdsStatements : Category → Bool
  | .stmt => true
  | .list c | .option c => c.holdsStatements
  | _ => false

namespace Piece

def holdsStatements : Piece AnyPhrase → Bool
  | .shown _ q => q.1.holdsStatements
  | _ => false

/-- Behind a piece that holds statements there are only others that do. -/
def linedUp : List (Piece AnyPhrase) → Bool
  | [] => true
  | piece :: pieces => (!piece.holdsStatements || pieces.all holdsStatements) && linedUp pieces

/-- A part whose statements the node of the phrase holds in the place of its own. -/
def isUnwrapped (role : Role) : Piece AnyPhrase → Bool
  | .shown passing _ => passing.role role == .body
  | _ => false

end Piece

/-! #### Facts about the pieces of phrases -/

namespace Phrase

theorem linedUp_pieces (p : Phrase c) : Piece.linedUp p.pieces = true := by
  cases p with
  | @cons c head tail =>
    have hlist : (Category.list c).holdsStatements = c.holdsStatements := rfl
    have hpieces : Piece.linedUp (head.cons tail).pieces =
        ((!c.holdsStatements || ((Category.list c).holdsStatements && true)) &&
          ((!c.holdsStatements || true) && true)) := rfl
    rw [hpieces, hlist]
    cases c.holdsStatements <;> rfl
  | @some c => exact (Bool.and_true _).trans (Bool.or_true _)
  | handler s binder body => cases binder <;> rfl
  | closure s params captures body => cases captures <;> rfl
  | call s callee args => cases callee <;> rfl
  | _ => rfl

/-- Only the body of a branch or loop takes a statement apart. -/
theorem isUnwrapped_pieces (p : Phrase c) (hc : c ≠ .body) (hrole : role ≠ .body) :
    (p.pieces.any (Piece.isUnwrapped role)) = false := by
  cases role with
  | body => exact absurd rfl hrole
  | _ =>
    cases p with
    | handler s binder body => cases binder <;> rfl
    | closure s params captures body => cases captures <;> rfl
    | call s callee args => cases callee <;> rfl
    | stmtBody | colonBody => exact absurd rfl hc
    | _ => rfl

theorem label?_of_isRun {p : Phrase c} (h : p.isRun = true) : p.label? source role = Option.none := by
  cases p <;> first | rfl | cases h

/-- A phrase without a node of its own has its statements in the list around it, or has none. -/
theorem holdsStatements_pieces (p : Phrase c) (hlabel : p.label? source role = Option.none) (hrun : p.isRun = false)
    (hrole : role ≠ .body) : p.pieces.any Piece.holdsStatements = false := by
  cases p with
  | block => cases role <;> first | exact absurd rfl hrole | cases hlabel
  | _ => first | rfl | (cases hrun; done) | cases hlabel

theorem isTerminator_eq (source : Source) (role : Role) (p : Phrase c) :
    p.isTerminator = (p.label? source role).any fun label => UnreachableCode.isTerminator label.kind := by
  cases p with
  | array | throwing | block => cases role <;> rfl
  | exprStmt s e => cases e <;> rfl
  | _ => rfl

theorem isUnit_eq (source : Source) (role : Role) (p : Phrase c) :
    p.isDeclaration = (p.label? source role).any fun label => label.kind.isUnit := by
  cases p with
  | array | throwing | block => cases role <;> rfl
  | exprStmt s e => cases e <;> rfl
  | _ => rfl

theorem outline_of_isTerminator {p : Phrase c} (h : p.isTerminator = true) :
    p.outline source .plain = p.outline source role := by
  cases p with
  | ret => rfl
  | exprStmt s e =>
    cases e with
    | throwing => rfl
    | _ => cases h
  | _ => cases h

/-! #### What stands behind a phrase -/

theorem survey_cons (head : Phrase c) (tail : Phrase (.list c)) (hidden followed : Bool) :
    (head.cons tail).survey hidden followed =
      head.survey hidden (tail.hasStatement || followed) ++ tail.survey hidden followed := by
  rw [survey_eq]
  change surveyOf hidden [.shown .same ⟨_, head⟩, .shown .same ⟨_, tail⟩] followed = _
  rw [surveyOf_cons, surveyOf_cons, List.any_cons, List.any_nil, Bool.or_false]
  exact congrArg _ (Survey.append_empty _)

theorem survey_some (value : Phrase c) (hidden followed : Bool) :
    (Phrase.some value).survey hidden followed = value.survey hidden followed := by
  rw [survey_eq]
  exact Survey.append_empty _

/-- What stands behind a phrase only matters to statements. -/
theorem survey_eq_of_not_holdsStatements (p : Phrase c) (hc : c.holdsStatements = false) (hidden f f' : Bool) :
    p.survey hidden f = p.survey hidden f' := by
  induction p generalizing f f' with
  | cons head tail ihead itail =>
    rw [survey_cons, survey_cons, ihead hc _ (tail.hasStatement || f'), itail hc f f']
  | some value ih =>
    rw [survey_some, survey_some]
    exact ih hc f f'
  | exprStmt | ret | namespaced => cases hc
  | _ => rfl

theorem isEmpty_outline (p : Phrase c) (hc : c.holdsStatements = true) (hrole : role ≠ .body) :
    (p.outline source role).isEmpty = !p.hasStatement := by
  induction p generalizing role with
  | nil | none => rfl
  | cons head tail ihead itail =>
    rw [outline_cons, isEmpty_append, ihead hc hrole, itail hc hrole, hasStatement, Bool.not_or]
  | some value ih =>
    rw [outline_some]
    exact ih hc hrole
  | namespaced s statements ih =>
    change (statements.outline source .plain ++ []).isEmpty = _
    rw [List.append_nil]
    exact ih rfl nofun
  | blockStmt body =>
    cases body
    cases role <;> first | rfl | exact absurd rfl hrole
  | exprStmt | ret | echo | branch | switch | tryCatch | forEach | forLoop | whileLoop | doWhile | global | static
  | function | classLike | other => rfl
  | _ => cases hc

end Phrase

namespace Piece

theorem surveyed_eq {piece : Piece AnyPhrase} (h : piece.holdsStatements = false) (f f' : Bool) :
    piece.surveyed false f = piece.surveyed false f' := by
  cases piece with
  | shown passing q => exact q.2.survey_eq_of_not_holdsStatements h false f f'
  | _ => rfl

theorem isEmpty_outlined {pieces : List (Piece AnyPhrase)} (hpieces : pieces.all holdsStatements = true)
    (hrole : pieces.any (isUnwrapped role) = false) :
    (pieces.flatMap (outlined source role)).isEmpty = !pieces.any hasStatement := by
  induction pieces with
  | nil => rfl
  | cons piece pieces ih =>
    rw [List.all_cons, Bool.and_eq_true] at hpieces
    rw [List.any_cons, Bool.or_eq_false_iff] at hrole
    rw [List.flatMap_cons, isEmpty_append, List.any_cons, Bool.not_or, ih hpieces.2 hrole.2]
    cases piece with
    | shown passing q =>
      exact congrArg (· && _) (q.2.isEmpty_outline hpieces.1 (beq_eq_false_iff_ne.1 hrole.1))
    | _ => cases hpieces.1

end Piece

theorem surveyOf_eq {pieces : List (Piece AnyPhrase)} (h : pieces.any Piece.holdsStatements = false) (f f' : Bool) :
    surveyOf false pieces f = surveyOf false pieces f' := by
  induction pieces with
  | nil => rfl
  | cons piece pieces ih =>
    rw [List.any_cons, Bool.or_eq_false_iff] at h
    rw [surveyOf_cons, surveyOf_cons, Piece.surveyed_eq h.1, ih h.2]

/-! #### Surveys -/

/-- Some outlines hold what a survey says, whatever stands behind them. -/
def Surveyed (source : Source) (os : List Outline) (survey : Bool → Survey Terminator Declaration) : Prop :=
  ∀ followed, surveyAll followed os = (survey followed).outlined source

theorem surveyed_capture (source : Source) (capture : Capture) :
    Surveyed source [captureNode source capture] fun _ => .empty := by
  intro followed
  rw [captureNode]
  split_ifs <;> rfl

theorem surveyed_captures (items : List Capture) :
    Surveyed source (items.map (captureNode source)) fun _ => .empty := by
  intro followed
  induction items with
  | nil => rfl
  | cons capture items ih =>
    have hcapture := surveyed_capture source capture (!(items.map (captureNode source)).isEmpty || followed)
    rw [List.map_cons, ← List.singleton_append, surveyAll_append, hcapture, ih]
    rfl

/-- The nodes of a piece hold what its part does. -/
theorem surveyed_piece {piece : Piece AnyPhrase} (hunwrapped : piece.isUnwrapped role = false)
    (h : ∀ q, piece.part? = some q → ∀ role, role ≠ .body →
      Surveyed source (q.2.outline source role) (q.2.survey false)) :
    Surveyed source (piece.outlined source role) (piece.surveyed false) := by
  intro followed
  cases piece with
  | shown passing part => exact h part rfl _ (beq_eq_false_iff_ne.1 hunwrapped) followed
  | classed span members => exact (surveyAll_node followed).trans (h members rfl .plain nofun false)
  | hidden part => rfl
  | var name | param name => rfl
  | captures clause => exact (surveyAll_node followed).trans (surveyed_captures clause.items false)

theorem surveyed_pieces {pieces : List (Piece AnyPhrase)} (hlinedUp : Piece.linedUp pieces = true)
    (hunwrapped : pieces.any (Piece.isUnwrapped role) = false)
    (h : ∀ piece ∈ pieces, Surveyed source (piece.outlined source role) (piece.surveyed false)) :
    Surveyed source (pieces.flatMap (Piece.outlined source role)) (surveyOf false pieces) := by
  intro followed
  induction pieces with
  | nil => rfl
  | cons piece pieces ih =>
    rw [Piece.linedUp, Bool.and_eq_true] at hlinedUp
    rw [List.any_cons, Bool.or_eq_false_iff] at hunwrapped
    have hpiece := h piece List.mem_cons_self
    have hpieces := ih hlinedUp.2 hunwrapped.2 fun next hnext => h next (List.mem_cons_of_mem _ hnext)
    rw [List.flatMap_cons, surveyAll_append, hpiece, hpieces, surveyOf_cons, Survey.outlined_append]
    -- What stands behind the piece matters if it holds statements, and then only nodes for statements do.
    cases hholds : piece.holdsStatements with
    | false => rw [Piece.surveyed_eq hholds _ (pieces.any Piece.hasStatement || followed)]
    | true =>
      rw [hholds] at hlinedUp
      rw [Piece.isEmpty_outlined hlinedUp.1 hunwrapped.2, Bool.not_not]

/-- A phrase without a node is no unit and no terminator. -/
theorem surveyed_of_label?_none {p : Phrase c} (hrole : role ≠ .body) (hlabel : p.label? source role = none)
    (hinside : Surveyed source (p.inside source role) (surveyOf false p.pieces)) :
    Surveyed source (p.outline source role) (p.survey false) := by
  have houtline := p.outline_eq source role
  have hunit := p.isUnit_eq source role
  have hterminator := p.isTerminator_eq source role
  rw [hlabel] at houtline hunit hterminator
  intro followed
  rw [p.survey_eq, AnyPhrase.survey, houtline, dif_neg (by rw [hunit]; exact Bool.false_ne_true),
    dif_neg (by rw [hterminator]; exact Bool.false_ne_true)]
  cases hrun : p.isRun with
  | true => exact hinside followed
  | false =>
    rw [surveyOf_eq (p.holdsStatements_pieces hlabel hrun hrole) _ followed]
    exact hinside followed

/-- The node of a phrase tells whether the phrase is a unit or a terminator. -/
theorem surveyed_of_label?_some {p : Phrase c} {label : Label} (hlabel : p.label? source role = some label)
    (hinside : Surveyed source (p.inside source role) (surveyOf false p.pieces)) :
    Surveyed source (p.outline source role) (p.survey false) := by
  have hrun : p.isRun = false := by
    refine Bool.eq_false_iff.2 fun hrun => ?_
    rw [Phrase.label?_of_isRun hrun] at hlabel
    cases hlabel
  have houtline := p.outline_eq source role
  have hunit := p.isUnit_eq source role
  have hterminator := p.isTerminator_eq source role
  rw [hlabel] at houtline hunit hterminator
  have hkind : p.isDeclaration = label.kind.isUnit := hunit
  have hkind' : p.isTerminator = UnreachableCode.isTerminator label.kind := hterminator
  intro followed
  rw [p.survey_eq, AnyPhrase.survey, hrun, Bool.false_and]
  split_ifs with hdeclaration hend
  · rw [houtline]
    rw [← Phrase.outline_of_isDeclaration hdeclaration] at houtline
    exact surveyAll_unit followed (hinside false) houtline (hkind.symm.trans hdeclaration)
  · rw [houtline]
    rw [← Phrase.outline_of_isTerminator hend] at houtline
    exact surveyAll_terminator followed (hinside false) houtline
      (hkind.symm.trans (Bool.eq_false_iff.2 hdeclaration)) (hkind'.symm.trans hend)
  · rw [houtline]
    refine (surveyAll_node followed ?_).trans (hinside false)
    rw [← hkind, ← hkind', Bool.eq_false_iff.2 hdeclaration, Bool.eq_false_iff.2 hend]
    rfl

/-- A phrase whose parts are not taken apart holds what its pieces do, and itself. -/
theorem surveyed_of_pieces {p : Phrase c} (hrole : role ≠ .body)
    (hunwrapped : p.pieces.any (Piece.isUnwrapped role) = false)
    (ih : ∀ q ∈ p.immediate, ∀ role, role ≠ .body →
      Surveyed source (q.2.outline source role) (q.2.survey false)) :
    Surveyed source (p.outline source role) (p.survey false) := by
  have hinside : Surveyed source (p.inside source role) (surveyOf false p.pieces) := by
    refine surveyed_pieces p.linedUp_pieces hunwrapped fun piece hpiece => ?_
    refine surveyed_piece (Bool.eq_false_iff.2 (List.any_eq_false.1 hunwrapped piece hpiece)) fun q hq => ?_
    exact ih q (Phrase.mem_immediate_of_mem_pieces hpiece hq)
  cases hlabel : p.label? source role with
  | none => exact surveyed_of_label?_none hrole hlabel hinside
  | some label => exact surveyed_of_label?_some hlabel hinside

/-- The statement that is the body of a branch or loop holds the same if it is taken apart. -/
theorem surveyAll_outline_body (statement : Stmt) :
    surveyAll false (statement.outline source .body) = surveyAll false (statement.outline source .plain) := by
  cases statement with
  | blockStmt body =>
    cases body with
    | block s statements =>
      change surveyAll false (statements.outline source .plain ++ [] ++ []) =
        surveyAll false [spanning source .scopeStatement "" s (statements.outline source .plain ++ [])]
      rw [List.append_nil]
      exact (surveyAll_node false).symm
  | _ => rfl

/-- The outline of a phrase holds the dead ends and units of the phrase, as far as they are not hidden. -/
theorem Phrase.surveyed (source : Source) (p : Phrase c) : ∀ role, role ≠ .body →
    Surveyed source (p.outline source role) (p.survey false) := by
  refine induction (motive := fun p => ∀ role, role ≠ .body →
    Surveyed source (p.outline source role) (p.survey false)) ?_ p
  intro c p ih role hrole
  by_cases hc : c = .body
  · subst hc
    cases p with
    | colonBody s statements => exact surveyed_of_pieces hrole rfl ih
    | stmtBody statement =>
      intro followed
      have hstatement := ih ⟨_, statement⟩ List.mem_cons_self .plain nofun false
      have hsurvey : (stmtBody statement).survey false followed = statement.survey false false := by
        rw [survey_eq]
        exact Survey.append_empty _
      change surveyAll followed [spanning source .scopeStatement "" statement.span
        (statement.outline source .body ++ [])] = ((stmtBody statement).survey false followed).outlined source
      rw [List.append_nil, hsurvey, ← hstatement, ← surveyAll_outline_body]
      exact surveyAll_node followed
  · exact surveyed_of_pieces hrole (p.isUnwrapped_pieces hc hrole) ih

end Php

end PhpInspect
