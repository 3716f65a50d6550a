import PhpInspect.Proofs.Php.Outline
import PhpInspect.Proofs.Tree.Graft

/-! # The grammar of analysis trees

Which children a node may have, by its kind. The outlines of a program obey this grammar, so every node of its
analysis tree does: a function has parameters and a body, a `finally` clause belongs to a `try` statement, a `use`
clause to a closure.
-/

namespace PhpInspect

namespace Kind

def isExpression : Kind → Bool
  | .expression | .assignmentExpression | .unaryExpression | .listExpression | .arrayExpression
  | .arrayIndexExpression | .issetExpression | .allocationExpression | .functionPostfix | .methodPostfix
  | .propertyPostfix | .closure | .var => true
  | _ => false

def isStatement : Kind → Bool
  | .scopeStatement | .statement | .echoStatement | .returnStatement | .throwStatement | .ifStatement
  | .switchStatement | .tryStatement | .foreachStatement | .forStatement | .whileStatement
  | .doWhileStatement | .globalStatement | .staticStatement | .function | .classLike => true
  | _ => false

/-- The kinds in a list of arguments. -/
def isArgument (k : Kind) : Bool := k.isExpression || k == .namedArgument

/-- The kinds below an expression without a kind of its own: `exit` has arguments. -/
def isOperand (k : Kind) : Bool := k.isExpression || k == .arguments

/-- The kinds in a `use` clause. -/
def isCapture (k : Kind) : Bool := k == .var || k == .unaryExpression

end Kind

/-! ### Slots -/

/-- A place for children of a node: for exactly one, for at most one, or for any number. -/
inductive Slot where
  | one (test : Kind → Bool)
  | optional (test : Kind → Bool)
  | many (test : Kind → Bool)

namespace Slot

/-- The slot for one node of a kind. -/
def only (k : Kind) : Slot := .one (· == k)

def test : Slot → Kind → Bool
  | .one test | .optional test | .many test => test

/-- The slot for at most one of what a slot is for. -/
def loosened : Slot → Slot
  | .one test => .optional test
  | s => s

/-- The slot for any number of what a slot is for. -/
def repeated (s : Slot) : Slot := .many s.test

/-- A slot is only for kinds that pass a test. -/
def isFor (test : Kind → Bool) (s : Slot) : Bool := Kind.all.all fun k => !s.test k || test k

theorem test_of_isFor {test : Kind → Bool} {s : Slot} {k : Kind} (h : s.isFor test = true)
    (hk : s.test k = true) : test k = true := by
  have hall := List.all_eq_true.1 h k (Kind.mem_all k)
  rwa [hk] at hall

/-- Kinds fill slots in order. -/
inductive Fills : List Slot → List Kind → Prop where
  | nil : Fills [] []
  | one {test : Kind → Bool} {k : Kind} {ss : List Slot} {ks : List Kind} :
      test k = true → Fills ss ks → Fills (.one test :: ss) (k :: ks)
  | absent {test : Kind → Bool} {ss : List Slot} {ks : List Kind} : Fills ss ks → Fills (.optional test :: ss) ks
  | present {test : Kind → Bool} {k : Kind} {ss : List Slot} {ks : List Kind} :
      test k = true → Fills ss ks → Fills (.optional test :: ss) (k :: ks)
  | done {test : Kind → Bool} {ss : List Slot} {ks : List Kind} : Fills ss ks → Fills (.many test :: ss) ks
  | more {test : Kind → Bool} {k : Kind} {ss : List Slot} {ks : List Kind} :
      test k = true → Fills (.many test :: ss) ks → Fills (.many test :: ss) (k :: ks)

variable {ss ss' : List Slot} {ks ks' : List Kind} {k : Kind} {test : Kind → Bool}

theorem Fills.append (h : Fills ss ks) (h' : Fills ss' ks') : Fills (ss ++ ss') (ks ++ ks') := by
  induction h with
  | nil => exact h'
  | one hk _ ih => exact .one hk ih
  | absent _ ih => exact .absent ih
  | present hk _ ih => exact .present hk ih
  | done _ ih => exact .done ih
  | more hk _ ih => exact .more hk ih

theorem Fills.exists_slot (h : Fills ss ks) (hk : k ∈ ks) : ∃ s ∈ ss, s.test k = true := by
  induction h with
  | nil => cases hk
  | one ht _ ih | present ht _ ih =>
    rcases List.mem_cons.1 hk with rfl | hk
    · exact ⟨_, List.mem_cons_self, ht⟩
    · obtain ⟨s, hs, htest⟩ := ih hk
      exact ⟨s, List.mem_cons_of_mem _ hs, htest⟩
  | absent _ ih | done _ ih =>
    obtain ⟨s, hs, htest⟩ := ih hk
    exact ⟨s, List.mem_cons_of_mem _ hs, htest⟩
  | more ht _ ih =>
    rcases List.mem_cons.1 hk with rfl | hk
    · exact ⟨_, List.mem_cons_self, ht⟩
    · exact ih hk

theorem fills_many : Fills [.many test] ks ↔ ∀ k ∈ ks, test k = true := by
  constructor
  · intro h k hk
    obtain ⟨s, hs, htest⟩ := h.exists_slot hk
    rwa [List.mem_singleton.1 hs] at htest
  · intro h
    induction ks with
    | nil => exact .done .nil
    | cons k ks ih =>
      exact .more (h k List.mem_cons_self) (ih fun j hj => h j (List.mem_cons_of_mem _ hj))

/-- One more of what a slot is for still fits the slot for any number of it. -/
theorem Fills.cons_repeated {slot : Option Slot} (h : Fills slot.toList ks)
    (h' : Fills (slot.map repeated).toList ks') : Fills (slot.map repeated).toList (ks ++ ks') := by
  cases slot with
  | none =>
    cases h
    exact h'
  | some s =>
    simp only [Option.map_some, Option.toList_some, repeated, fills_many] at h' ⊢
    intro k hk
    rcases List.mem_append.1 hk with hk | hk
    · obtain ⟨s', hs', htest⟩ := h.exists_slot hk
      rwa [List.mem_singleton.1 hs'] at htest
    · exact h' k hk

theorem fills_repeated_nil (slot : Option Slot) : Fills (slot.map repeated).toList [] := by
  cases slot with
  | none => exact .nil
  | some s => exact .done .nil

/-! ### Wider slots -/

/-- What fills `ss` also fills the other slots: each of these takes the next one of `ss`, or is left empty, or takes as
many as it is for. -/
def accepts : List Slot → List Slot → Bool
  | [], ss => ss.isEmpty
  | .one test :: wide, ss =>
    match ss with
    | .one test' :: ss => isFor test (.one test') && accepts wide ss
    | _ => false
  | .optional test :: wide, ss =>
    match ss with
    | .one test' :: rest | .optional test' :: rest => isFor test (.one test') && accepts wide rest || accepts wide ss
    | _ => accepts wide ss
  | .many test :: wide, ss => accepts wide (ss.dropWhile (isFor test))

theorem Fills.more_append (h : Fills ss ks') (hks : ∀ k ∈ ks, test k = true) :
    Fills (.many test :: ss) (ks ++ ks') := by
  induction ks with
  | nil => exact .done h
  | cons k ks ih =>
    obtain ⟨hk, hks⟩ := List.forall_mem_cons.1 hks
    exact .more hk (ih hks)

theorem Fills.exists_more (h : Fills (.many test :: ss) ks) :
    ∃ front rest, ks = front ++ rest ∧ (∀ k ∈ front, test k = true) ∧ Fills ss rest := by
  induction ks with
  | nil =>
    cases h with
    | done h => exact ⟨[], [], rfl, nofun, h⟩
  | cons k ks ih =>
    cases h with
    | done h => exact ⟨[], k :: ks, rfl, nofun, h⟩
    | more hk h =>
      obtain ⟨front, rest, rfl, hfront, hrest⟩ := ih h
      exact ⟨k :: front, rest, rfl, List.forall_mem_cons.2 ⟨hk, hfront⟩, hrest⟩

theorem Fills.exists_append (h : Fills (ss ++ ss') ks) :
    ∃ front rest, ks = front ++ rest ∧ Fills ss front ∧ Fills ss' rest := by
  induction ss generalizing ks with
  | nil => exact ⟨[], ks, rfl, .nil, h⟩
  | cons s ss ih =>
    cases s with
    | one test =>
      cases h with
      | one hk h =>
        obtain ⟨front, rest, rfl, hfront, hrest⟩ := ih h
        exact ⟨_, rest, rfl, .one hk hfront, hrest⟩
    | optional test =>
      cases h with
      | absent h =>
        obtain ⟨front, rest, rfl, hfront, hrest⟩ := ih h
        exact ⟨front, rest, rfl, .absent hfront, hrest⟩
      | present hk h =>
        obtain ⟨front, rest, rfl, hfront, hrest⟩ := ih h
        exact ⟨_, rest, rfl, .present hk hfront, hrest⟩
    | many test =>
      obtain ⟨taken, left, rfl, htaken, hleft⟩ := h.exists_more
      obtain ⟨front, rest, rfl, hfront, hrest⟩ := ih hleft
      exact ⟨taken ++ front, rest, (List.append_assoc _ _ _).symm, hfront.more_append htaken, hrest⟩

theorem Fills.accepted {wide : List Slot} (h : Fills ss ks) (hwide : accepts wide ss = true) : Fills wide ks := by
  induction wide generalizing ss ks with
  | nil =>
    obtain rfl := List.isEmpty_iff.1 hwide
    exact h
  | cons s wide ih =>
    cases s with
    | one test =>
      cases h with
      | one hk h =>
        obtain ⟨hfor, hrest⟩ := Bool.and_eq_true_iff.1 hwide
        exact .one (test_of_isFor hfor hk) (ih h hrest)
      | _ => cases hwide
    | optional test =>
      cases h with
      | nil => exact .absent (ih .nil hwide)
      | one hk h =>
        rcases Bool.or_eq_true_iff.1 hwide with htake | hskip
        · obtain ⟨hfor, hrest⟩ := Bool.and_eq_true_iff.1 htake
          exact .present (test_of_isFor hfor hk) (ih h hrest)
        · exact .absent (ih (.one hk h) hskip)
      | present hk h =>
        rcases Bool.or_eq_true_iff.1 hwide with htake | hskip
        · obtain ⟨hfor, hrest⟩ := Bool.and_eq_true_iff.1 htake
          exact .present (test_of_isFor hfor hk) (ih h hrest)
        · exact .absent (ih (.present hk h) hskip)
      | absent h =>
        rcases Bool.or_eq_true_iff.1 hwide with htake | hskip
        · exact .absent (ih h (Bool.and_eq_true_iff.1 htake).2)
        · exact .absent (ih (.absent h) hskip)
      | done h => exact .absent (ih (.done h) hwide)
      | more hk h => exact .absent (ih (.more hk h) hwide)
    | many test =>
      rw [← List.takeWhile_append_dropWhile (p := isFor test) (l := ss)] at h
      obtain ⟨front, rest, rfl, hfront, hrest⟩ := h.exists_append
      refine (ih hrest hwide).more_append fun k hk => ?_
      obtain ⟨s, hs, hsk⟩ := hfront.exists_slot hk
      exact test_of_isFor (List.all_eq_true.1 List.all_takeWhile s hs) hsk

end Slot

/-! ### The grammar -/

/-- The slots for the children of a node, a method without a body or a `case` of a `switch` being marked. -/
def Kind.slots (isAbstract isCase : Bool) : Kind → List Slot
  | .program | .scope | .scopeStatement => [.many isStatement]
  | .classLike => [.many (· == .method)]
  | .function => [.only .formalParameters, .only .scope]
  | .method => if isAbstract then [.only .formalParameters] else [.only .formalParameters, .only .scope]
  | .closure => [.only .formalParameters, .optional (· == .closureUse), .only .scope]
  | .formalParameters => [.many (· == .formalParameter)]
  | .formalParameter => [.only .variableDeclarator]
  | .variableDeclarator | .var => []
  | .closureUse => [.many isCapture]
  | .statement | .returnStatement => [.optional isExpression]
  | .echoStatement | .globalStatement | .issetExpression | .listExpression | .arrayExpression =>
    [.many isExpression]
  | .throwStatement | .unaryExpression | .propertyPostfix | .namedArgument => [.one isExpression]
  | .ifStatement =>
    [.one isExpression, .only .scopeStatement, .many (· == .elseIfStatement), .optional (· == .elseStatement)]
  | .elseIfStatement | .whileStatement => [.one isExpression, .only .scopeStatement]
  | .elseStatement | .finallyStatement => [.only .scopeStatement]
  | .switchStatement => [.one isExpression, .many (· == .switchLabel)]
  | .switchLabel => if isCase then [.one isExpression, .many isStatement] else [.many isStatement]
  | .tryStatement => [.only .scopeStatement, .many (· == .catchStatement), .optional (· == .finallyStatement)]
  | .catchStatement => [.optional (· == .var), .only .scopeStatement]
  | .foreachStatement => [.one isExpression, .optional isExpression, .one isExpression, .only .scopeStatement]
  | .forStatement => [.many isExpression, .many isExpression, .many isExpression, .only .scopeStatement]
  | .doWhileStatement => [.only .scopeStatement, .one isExpression]
  | .staticStatement => [.many (· == .var)]
  | .expression => [.many isOperand]
  | .assignmentExpression => [.one isExpression, .one isExpression]
  | .arrayIndexExpression => [.one isExpression, .optional isExpression]
  | .allocationExpression => [.optional isExpression, .optional (· == .arguments), .optional (· == .classLike)]
  | .functionPostfix => [.optional isExpression, .only .arguments]
  | .methodPostfix => [.one isExpression, .only .arguments]
  | .arguments => [.many isArgument]

def Label.slots (l : Label) : List Slot := l.kind.slots l.isAbstract (l.image == "case")

/-- A node may have children with the given labels, and is abstract only if it is a method. -/
def Grammatical (l : Label) (children : List Label) : Prop :=
  Slot.Fills l.slots (children.map (·.kind)) ∧ (l.isAbstract = true → l.kind = .method)

/-- Outlines fill slots, and everything in them is grammatical. -/
structure Conforms (ss : List Slot) (os : List Outline) : Prop where
  fills : Slot.Fills ss (os.map (·.label.kind))
  licensed : Outline.Licensed Grammatical os

namespace Conforms

variable {ss ss' : List Slot} {os os' cs : List Outline} {slot : Option Slot} {l : Label}

theorem nil : Conforms [] [] := ⟨.nil, Outline.licensed_nil⟩

theorem append (h : Conforms ss os) (h' : Conforms ss' os') : Conforms (ss ++ ss') (os ++ os') where
  fills := by
    rw [List.map_append]
    exact h.fills.append h'.fills
  licensed := Outline.licensed_append.2 ⟨h.licensed, h'.licensed⟩

theorem accepted (h : Conforms ss os) (hwide : Slot.accepts ss' ss = true := by rfl) : Conforms ss' os :=
  ⟨h.fills.accepted hwide, h.licensed⟩

theorem node (h : Conforms ss cs) (hslots : Slot.accepts l.slots ss = true := by rfl)
    (habstract : (!l.isAbstract || l.kind == .method) = true := by rfl) : Conforms [.only l.kind] [.node l cs] where
  fills := .one (beq_self_eq_true _) .nil
  licensed := by
    refine Outline.licensed_node.2 ⟨⟨?_, fun hl => ?_⟩, h.licensed⟩
    · rw [List.map_map]
      exact h.fills.accepted hslots
    · simpa [hl] using habstract

theorem spanning {source : Source} {kind : Kind} {image : String} {span : Span} (h : Conforms ss cs)
    (hslots : Slot.accepts (Label.slots ⟨kind, image, 0, 0, false⟩) ss = true := by rfl) :
    Conforms [.only kind] [Php.Outlining.spanning source kind image span cs] := by
  have hlabel : Slot.accepts (Php.Outlining.labelOn source kind image span).slots ss = true := hslots
  exact node h hlabel rfl

theorem cons_repeated (h : Conforms slot.toList os) (h' : Conforms (slot.map Slot.repeated).toList os') :
    Conforms (slot.map Slot.repeated).toList (os ++ os') where
  fills := by
    rw [List.map_append]
    exact h.fills.cons_repeated h'.fills
  licensed := Outline.licensed_append.2 ⟨h.licensed, h'.licensed⟩

theorem repeated_nil (slot : Option Slot) : Conforms (slot.map Slot.repeated).toList [] :=
  ⟨Slot.fills_repeated_nil slot, Outline.licensed_nil⟩

theorem loosened (h : Conforms slot.toList os) : Conforms (slot.map Slot.loosened).toList os := by
  cases slot with
  | none => exact h
  | some s =>
    cases s with
    | one test =>
      refine ⟨?_, h.licensed⟩
      have hfills := h.fills
      generalize os.map (·.label.kind) = ks at hfills
      cases hfills with
      | one hk hnil => exact .present hk hnil
    | optional test => exact h
    | many test => exact h

theorem loosened_nil (slot : Option Slot) : Conforms (slot.map Slot.loosened).toList [] := by
  cases slot with
  | none => exact nil
  | some s =>
    cases s with
    | one test | optional test => exact ⟨.absent .nil, Outline.licensed_nil⟩
    | many test => exact ⟨.done .nil, Outline.licensed_nil⟩

end Conforms

namespace Php

open Outlining

/-! ### Slots of phrases -/

/-- The slot that the outlines of a phrase fill, by its category. -/
def Category.slot (role : Role) : Category → Option Slot
  | .var | .expr => some (.one Kind.isExpression)
  | .arguments => some (.only .arguments)
  | .argument => some (.one Kind.isArgument)
  | .selector | .arm | .hook => none
  | .element => some (.many Kind.isExpression)
  | .parameters => some (.only .formalParameters)
  | .parameter => some (.only .formalParameter)
  | .member => some (.many (· == .method))
  | .block =>
    match role with
    | .callableBody => some (.only .scope)
    | .body => some (.many Kind.isStatement)
    | _ => some (.only .scopeStatement)
  | .body => some (.only .scopeStatement)
  | .elseIf => some (.only .elseIfStatement)
  | .otherwise => some (.only .elseStatement)
  | .switchCase => some (.only .switchLabel)
  | .handler => some (.only .catchStatement)
  | .cleanup => some (.only .finallyStatement)
  | .staticItem => some (.only .var)
  | .stmt => some (.many Kind.isStatement)
  | .list items => (items.slot role).map Slot.repeated
  | .option item => (item.slot role).map Slot.loosened

/-- The slots that the outlines of a phrase fill: those of its category, but for an optional phrase by whether it is
there. -/
def Phrase.slots (role : Role) {c : Category} (p : Phrase c) : List Slot :=
  match c, p with
  | .option _, .none => []
  | .option item, .some _ => (item.slot role).toList
  | c, _ => (c.slot role).toList

def Piece.slots (role : Role) : Piece AnyPhrase → List Slot
  | .shown passing q => q.2.slots (passing.role role)
  | .classed _ _ => [.only .classLike]
  | .hidden _ => []
  | .var _ => [.only .var]
  | .param _ => [.only .variableDeclarator]
  | .captures _ => [.only .closureUse]

/-- What is taken for the members of a class are methods. -/
def Piece.isRegular : Piece AnyPhrase → Bool
  | .classed _ q => Slot.accepts [.many (· == .method)] (q.2.slots .plain)
  | _ => true

/-- The nodes of the pieces of a phrase may stand below the node of the phrase, or in its place if it has none. -/
def Phrase.isRegular (source : Source) (role : Role) {c : Category} (p : Phrase c) : Bool :=
  let inside := p.pieces.flatMap (Piece.slots role)
  p.pieces.all Piece.isRegular && match p.label? source role with
  | Option.none => Slot.accepts (p.slots role) inside
  | Option.some l =>
    Slot.accepts (p.slots role) [.only l.kind] && Slot.accepts l.slots inside && (!l.isAbstract || l.kind == .method)

/-- Phrases of this category only stand for other phrases. -/
def Category.isSequence : Category → Bool
  | .list _ | .option _ => true
  | _ => false

theorem Phrase.regular (source : Source) (role : Role) {c : Category} (p : Phrase c) (hc : c.isSequence = false) :
    p.isRegular source role = true := by
  cases p with
  | nil | cons | none | some => cases hc
  -- Phrases in different roles.
  | throwing | block | paren | array | pair | single | blockStmt => cases role <;> rfl
  -- Phrases with something that may be absent.
  | conditional s condition yes no => cases yes <;> rfl
  | instantiate s className args => cases args <;> rfl
  | anonymousClass s args members => cases args <;> rfl
  | exit s word args => cases args <;> rfl
  | yieldValue s value => cases value <;> rfl
  | ret s value => cases value <;> rfl
  | branch s condition body elseIfs otherwise => cases otherwise <;> rfl
  | tryCatch s body handlers cleanup => cases cleanup <;> rfl
  | forEach s subject key value body => cases key <;> rfl
  | method s id params body => cases body <;> rfl
  | switchCase s condition statements => cases condition <;> rfl
  | closure s params captures body => cases captures <;> rfl
  | handler s binder body => cases binder <;> rfl
  -- Phrases with a part that is treated in its own way.
  | call s callee args => cases callee <;> rfl
  | exprStmt s value => cases value <;> rfl
  | _ => rfl

/-! ### Phrases -/

section

variable {source : Source} {role : Role} {c : Category} {p : Phrase c} {os : List Outline}

theorem conforms_slot (h : Conforms (p.slots role) os) : Conforms (c.slot role).toList os := by
  cases p with
  | none =>
    have hfills : Slot.Fills [] (os.map (·.label.kind)) := h.fills
    generalize hks : os.map (·.label.kind) = ks at hfills
    cases hfills
    rw [List.map_eq_nil_iff.1 hks]
    exact Conforms.loosened_nil _
  | some value => exact Conforms.loosened h
  | _ => exact h

theorem conforms_captures (source : Source) (clause : Captures) : Conforms [.only .closureUse]
    [spanning source .closureUse "use" clause.span (clause.items.map (captureNode source))] := by
  have hitems : Conforms [.many Kind.isCapture] (clause.items.map (captureNode source)) := by
    induction clause.items with
    | nil => exact ⟨.done .nil, Outline.licensed_nil⟩
    | cons capture items ih =>
      have hname : Conforms [.only .var] [variableNode source capture.name] := Conforms.nil.spanning
      have hcapture : Conforms [.one Kind.isCapture] [captureNode source capture] := by
        rw [captureNode]
        split_ifs
        · exact hname.spanning.accepted
        · exact hname.accepted
      exact (hcapture.append ih).accepted
  exact hitems.spanning

theorem conforms_piece (piece : Piece AnyPhrase) (hregular : piece.isRegular = true)
    (h : ∀ q, piece.part? = some q → ∀ role, Conforms (q.2.slots role) (q.2.outline source role)) :
    Conforms (piece.slots role) (piece.outlined source role) := by
  cases piece with
  | shown passing q => exact h q rfl _
  | classed s q => exact (h q rfl .plain).spanning hregular
  | hidden q => exact Conforms.nil
  | var name | param name => exact Conforms.nil.spanning
  | captures clause => exact conforms_captures source clause

theorem conforms_inside (source : Source) (role : Role) (hregular : p.pieces.all Piece.isRegular = true)
    (h : ∀ q ∈ p.immediate, ∀ role, Conforms (q.2.slots role) (q.2.outline source role)) :
    Conforms (p.pieces.flatMap (Piece.slots role)) (p.inside source role) := by
  have hpieces : ∀ piece ∈ p.pieces, Conforms (piece.slots role) (piece.outlined source role) := fun piece hpiece =>
    conforms_piece piece (List.all_eq_true.1 hregular piece hpiece) fun q hq =>
      h q (Phrase.mem_immediate_of_mem_pieces hpiece hq)
  rw [Phrase.inside]
  generalize p.pieces = pieces at hpieces
  induction pieces with
  | nil => exact Conforms.nil
  | cons piece pieces ih =>
    obtain ⟨hpiece, hpieces⟩ := List.forall_mem_cons.1 hpieces
    exact hpiece.append (ih hpieces)

end

/-- The outlines of a phrase conform to the grammar and fill its slots. -/
theorem Phrase.conforms_slots (source : Source) {c : Category} (p : Phrase c) (role : Role) :
    Conforms (p.slots role) (p.outline source role) := by
  refine Phrase.induction (motive := fun p => ∀ role, Conforms (p.slots role) (p.outline source role))
    (fun {c} p ih role => ?_) p role
  cases hc : c.isSequence with
  | true =>
    cases p with
    | nil => exact Conforms.repeated_nil _
    | cons head tail =>
      have hhead := ih ⟨_, head⟩ List.mem_cons_self role
      have htail := ih ⟨_, tail⟩ (List.mem_cons_of_mem _ List.mem_cons_self) role
      rw [outline_cons]
      exact (conforms_slot hhead).cons_repeated htail
    | none => exact Conforms.nil
    | some value =>
      rw [outline_some]
      exact conforms_slot (ih ⟨_, value⟩ List.mem_cons_self role)
    | _ => cases hc
  | false =>
    have hregular := p.regular source role hc
    rw [isRegular, Bool.and_eq_true] at hregular
    obtain ⟨hpieces, hregular⟩ := hregular
    have hinside := conforms_inside source role hpieces ih
    rw [outline_eq]
    cases hlabel : p.label? source role with
    | none =>
      rw [hlabel] at hregular
      exact hinside.accepted hregular
    | some l =>
      rw [hlabel, Bool.and_eq_true, Bool.and_eq_true] at hregular
      obtain ⟨⟨hkind, hslots⟩, habstract⟩ := hregular
      exact (hinside.node hslots habstract).accepted hkind

theorem Phrase.conforms (source : Source) {c : Category} (p : Phrase c) (role : Role) :
    Conforms (c.slot role).toList (p.outline source role) := conforms_slot (p.conforms_slots source role)

theorem Phrase.test_of_mem_outline {source : Source} {role : Role} {c : Category} {slot : Slot} {o : Outline}
    (p : Phrase c) (hslot : c.slot role = Option.some slot) (ho : o ∈ p.outline source role) :
    slot.test o.label.kind = true := by
  have hfills := (p.conforms source role).fills
  rw [hslot] at hfills
  obtain ⟨s, hs, htest⟩ := hfills.exists_slot (List.mem_map_of_mem ho)
  rwa [List.mem_singleton.1 hs] at htest

end Php

end PhpInspect
