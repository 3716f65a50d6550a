import PhpInspect.Proofs.Php.Nesting

/-! # The lines of nodes

The nodes of the analysis tree of a text lie on lines of the text. A node takes its lines from the range of its phrase,
from the first and the last of some statements, or from both. If the ranges of the program are nested, then so are the
lines of the nodes.
-/

namespace PhpInspect

/-- The lines from one to another, in a text with some number of lines. -/
def IsLineRange (count first last : Nat) : Prop := 1 ≤ first ∧ first ≤ last ∧ last ≤ count

instance (count first last : Nat) : Decidable (IsLineRange count first last) :=
  inferInstanceAs (Decidable (_ ∧ _ ∧ _))

/-- Lines lie among others. -/
def Encloses (outer inner : Nat × Nat) : Prop := outer.1 ≤ inner.1 ∧ inner.2 ≤ outer.2

def Label.lines (l : Label) : Nat × Nat := (l.beginLine, l.endLine)

theorem Encloses.refl (lines : Nat × Nat) : Encloses lines lines := ⟨Nat.le_refl _, Nat.le_refl _⟩

theorem Encloses.trans {a b c : Nat × Nat} (h : Encloses a b) (h' : Encloses b c) : Encloses a c :=
  ⟨Nat.le_trans h.1 h'.1, Nat.le_trans h'.2 h.2⟩

namespace Php

open Outline Outlining PhpInspect.Span

variable {source : Source} {s outer : Span} {spans : List Span} {program : List AnyPhrase}

/-! ### Statements in the order of the source -/

/-- The ranges of the statements of a case. -/
def Phrase.caseSpans : {c : Category} → Phrase c → List Span
  | _, .switchCase _ _ statements => statements.spans
  | _, _ => []

/-- In every list of statements the statements begin in order, and no case begins behind a statement of it. -/
structure Orderly (program : List AnyPhrase) : Prop where
  listed : ∀ q ∈ program, q.1 = .list .stmt → q.2.spans.Pairwise fun a b => a.start ≤ b.start
  labelled : ∀ q ∈ program, ∀ s ∈ q.2.caseSpans, q.2.span.start ≤ s.start

instance (program : List AnyPhrase) : Decidable (Orderly program) :=
  decidable_of_iff
    ((∀ q ∈ program, q.1 = .list .stmt → q.2.spans.Pairwise fun a b => a.start ≤ b.start) ∧
      ∀ q ∈ program, ∀ s ∈ q.2.caseSpans, q.2.span.start ≤ s.start)
    ⟨fun h => ⟨h.1, h.2⟩, fun h => ⟨h.listed, h.labelled⟩⟩

theorem Phrase.ranges_stmt (inline : Bool) (statement : Stmt) : statement.ranges inline = [statement.span] := by
  cases statement <;> rfl

theorem Phrase.ranges_stmts (inline : Bool) : ∀ statements : Phrase (.list .stmt),
    statements.ranges inline = statements.spans
  | .nil => rfl
  | .cons head tail => by
    change head.ranges inline ++ tail.ranges inline = head.span :: tail.spans
    rw [ranges_stmt, tail.ranges_stmts, List.singleton_append]

theorem Phrase.ranges_condition (inline : Bool) (condition : Phrase (.option .expr)) :
    condition.ranges inline = condition.ranges true := by
  cases condition with
  | none => rfl
  | some value => cases value <;> rfl

/-! ### The lines of statements -/

theorem sequenceLines_of_ne_nil (h : spans ≠ []) (outer : Span) : sequenceLines source outer spans =
    ((source.lines.linesOf (spans.head h)).1, (source.lines.linesOf (spans.getLast h)).2) := by
  rw [sequenceLines, List.head?_eq_some_head h, List.getLast?_eq_some_getLast h]

/-- The first statement begins on no later line than the last statement ends. -/
theorem sequenceLines_le (h : spans.Pairwise fun a b => a.start ≤ b.start) (outer : Span) :
    (sequenceLines source outer spans).1 ≤ (sequenceLines source outer spans).2 := by
  cases spans with
  | nil => exact source.lines.linesOf_le outer
  | cons first rest =>
    rw [sequenceLines_of_ne_nil (List.cons_ne_nil first rest)]
    refine Nat.le_trans (LineTable.lineOf_mono ?_) (source.lines.linesOf_le _)
    rcases List.mem_cons.1 (List.getLast_mem (List.cons_ne_nil first rest)) with heq | hmem
    · rw [heq]
      exact Nat.le_refl _
    · exact (List.pairwise_cons.1 h).1 _ hmem

theorem sequenceLines_fst_le (h : spans.Pairwise Precedes) (hne : ∀ r ∈ spans, r.start < r.stop) (hs : s ∈ spans)
    (outer : Span) : (sequenceLines source outer spans).1 ≤ (source.lines.linesOf s).1 := by
  cases spans with
  | nil => cases hs
  | cons first rest =>
    rw [sequenceLines_of_ne_nil (List.cons_ne_nil first rest)]
    apply LineTable.lineOf_mono
    rcases List.mem_cons.1 hs with rfl | hs
    · exact Nat.le_refl _
    · have hprecedes : first.stop ≤ s.start := (List.pairwise_cons.1 h).1 s hs
      have hfirst := hne first List.mem_cons_self
      exact Nat.le_trans (Nat.le_of_lt hfirst) hprecedes

/-- What comes before some statements, and the statements themselves, end on no later line than the last of them. -/
theorem le_sequenceLines_snd (front : List Span) (h : (front ++ spans).Pairwise Precedes)
    (hinside : ∀ r ∈ front ++ spans, r.Inside outer) (hs : s ∈ front ++ spans) :
    (source.lines.linesOf s).2 ≤ (sequenceLines source outer spans).2 := by
  rcases List.eq_nil_or_concat' spans with rfl | ⟨init, last, rfl⟩
  · exact (LineTable.linesOf_of_inside (hinside s hs)).2
  · rw [sequenceLines_of_ne_nil (by simp), List.getLast_concat]
    rw [← List.append_assoc] at h hs hinside
    have hlast := (hinside last (List.mem_append_right _ List.mem_cons_self)).2.1
    rcases List.mem_append.1 hs with hinit | hs
    · have hprecedes : s.stop ≤ last.start := (List.pairwise_append.1 h).2.2 s hinit last List.mem_cons_self
      apply LineTable.lineOf_mono
      rw [if_pos (hinside s hs).2.1, if_pos hlast]
      omega
    · obtain rfl := List.mem_singleton.1 hs
      exact Nat.le_refl _

/-- A statement that begins before some statements begins on no later line than the last of them ends. -/
theorem fst_le_sequenceLines (h : ∀ r ∈ spans, s.start ≤ r.start) :
    (source.lines.linesOf s).1 ≤ (sequenceLines source s spans).2 := by
  by_cases hspans : spans = []
  · rw [hspans]
    exact source.lines.linesOf_le s
  · rw [sequenceLines_of_ne_nil hspans]
    exact Nat.le_trans (LineTable.lineOf_mono (h _ (List.getLast_mem hspans))) (source.lines.linesOf_le _)

theorem encloses_sequenceLines (h : ∀ r ∈ spans, r.Inside outer) :
    Encloses (source.lines.linesOf outer) (sequenceLines source outer spans) := by
  by_cases hspans : spans = []
  · rw [hspans]
    exact .refl _
  · rw [sequenceLines_of_ne_nil hspans]
    exact ⟨(LineTable.linesOf_of_inside (h _ (List.head_mem hspans))).1,
      (LineTable.linesOf_of_inside (h _ (List.getLast_mem hspans))).2⟩

theorem one_le_sequenceLines (hlines : ∀ r, 1 ≤ (source.lines.linesOf r).1) (outer : Span) (spans : List Span) :
    1 ≤ (sequenceLines source outer spans).1 := by
  rw [sequenceLines]
  split
  · exact hlines _
  · exact hlines _

theorem sequenceLines_snd_le {count : Nat} (hlines : ∀ r, (source.lines.linesOf r).2 ≤ count) (outer : Span)
    (spans : List Span) : (sequenceLines source outer spans).2 ≤ count := by
  rw [sequenceLines]
  split
  · exact hlines _
  · exact hlines _

/-! ### Phrases on lines -/

/-- What a program must be like for its nodes to lie on lines of the text. If `strict`, its ranges are nested. -/
structure Grounds (source : Source) (strict : Prop) (program : List AnyPhrase) : Prop where
  first : ∀ s, 1 ≤ (source.lines.linesOf s).1
  last : ∀ s, (source.lines.linesOf s).2 ≤ source.lines.lineCount
  orderly : Orderly program
  nested : strict → Nested program

/-- Ranges lie on some lines, if the ranges of the program are nested. -/
def LieOn (source : Source) (strict : Prop) (lines : Nat × Nat) (spans : List Span) : Prop :=
  strict → ∀ s ∈ spans, Encloses lines (source.lines.linesOf s)

variable {strict : Prop} {lines : Nat × Nat} {spans' : List Span}

theorem LieOn.left (h : LieOn source strict lines (spans ++ spans')) : LieOn source strict lines spans :=
  fun hstrict s hs => h hstrict s (List.mem_append_left _ hs)

theorem LieOn.right (h : LieOn source strict lines (spans ++ spans')) : LieOn source strict lines spans' :=
  fun hstrict s hs => h hstrict s (List.mem_append_right _ hs)

theorem LieOn.self : LieOn source strict (source.lines.linesOf s) [s] :=
  fun _ _ hr => List.mem_singleton.1 hr ▸ .refl _

theorem LieOn.of_inside (h : strict → s.Inside outer) : LieOn source strict (source.lines.linesOf outer) [s] :=
  fun hstrict _ hr => List.mem_singleton.1 hr ▸ LineTable.linesOf_of_inside (h hstrict)

theorem Grounds.contents (hg : Grounds source strict program) {c : Category} {x : Phrase c} (hx : ⟨c, x⟩ ∈ program)
    (hc : c.isSequence = false) : LieOn source strict (source.lines.linesOf x.span) (x.contents false) := by
  intro hstrict s hs
  cases hvariable : x.isVariable with
  | true =>
    cases x with
    | direct | staticItem => exact List.mem_singleton.1 hs ▸ .refl _
    | _ => cases hvariable
  | false =>
    have hinside := (hg.nested hstrict).inside ⟨c, x⟩ hx (Bool.or_eq_false_iff.2 ⟨hc, hvariable⟩) false s hs
    exact LineTable.linesOf_of_inside hinside

/-- The statements of a body lie on the lines from the first to the last of them. -/
theorem Grounds.colonBody (hg : Grounds source strict program) {statements : Phrase (.list .stmt)}
    (hself : ⟨.body, .colonBody outer statements⟩ ∈ program) :
    LieOn source strict (sequenceLines source outer statements.spans) (statements.ranges false) := by
  intro hstrict r hr
  have hinside : ∀ r ∈ statements.ranges false ++ [], r.Inside outer := (hg.nested hstrict).inside _ hself rfl false
  have hapart : (statements.ranges true ++ []).Pairwise Precedes := (hg.nested hstrict).apart _ hself
  rw [List.append_nil, Phrase.ranges_stmts] at hinside hapart
  rw [Phrase.ranges_stmts] at hr
  exact ⟨sequenceLines_fst_le hapart (fun r hr => (hinside r hr).2.1) hr outer,
    le_sequenceLines_snd [] hapart hinside hr⟩

/-- The condition and the statements of a case lie on the lines from the case to the last of the statements. -/
theorem Grounds.switchCase (hg : Grounds source strict program) {condition : Phrase (.option .expr)}
    {statements : Phrase (.list .stmt)} (hself : ⟨.switchCase, .switchCase s condition statements⟩ ∈ program) :
    LieOn source strict ((source.lines.linesOf s).1, (sequenceLines source s statements.spans).2)
      (condition.ranges false ++ statements.ranges false) := by
  intro hstrict r hr
  have hinside : ∀ r ∈ condition.ranges false ++ (statements.ranges false ++ []), r.Inside s :=
    (hg.nested hstrict).inside _ hself rfl false
  have hapart : (condition.ranges true ++ (statements.ranges true ++ [])).Pairwise Precedes :=
    (hg.nested hstrict).apart _ hself
  rw [Phrase.ranges_condition, List.append_nil, Phrase.ranges_stmts] at hinside
  rw [Phrase.ranges_condition, Phrase.ranges_stmts] at hr
  rw [List.append_nil, Phrase.ranges_stmts] at hapart
  exact ⟨(LineTable.linesOf_of_inside (hinside r hr)).1, le_sequenceLines_snd _ hapart hinside hr⟩

/-! ### Outlines on lines -/

/-- Every node of some outlines lies on lines of the text. If the ranges of the program are nested, the outlines lie
on some lines, and what is below a node lies on the lines of the node. -/
structure Fits (source : Source) (strict : Prop) (lines : Nat × Nat) (os : List Outline) : Prop where
  valid : Everywhere (fun o => IsLineRange source.lines.lineCount o.label.beginLine o.label.endLine) os
  placed : strict → ∀ o ∈ os, Encloses lines o.label.lines
  nested : strict → Everywhere (fun o => ∀ q ∈ o.children, Encloses o.label.lines q.label.lines) os

namespace Fits

variable {os os' cs : List Outline} {label : Label}

theorem nil : Fits source strict lines [] := ⟨everywhere_nil, nofun, fun _ => everywhere_nil⟩

theorem append (h : Fits source strict lines os) (h' : Fits source strict lines os') :
    Fits source strict lines (os ++ os') where
  valid := h.valid.append h'.valid
  placed := by
    intro hstrict o ho
    rcases List.mem_append.1 ho with ho | ho
    · exact h.placed hstrict o ho
    · exact h'.placed hstrict o ho
  nested := fun hstrict => (h.nested hstrict).append (h'.nested hstrict)

theorem node (h : Fits source strict label.lines cs)
    (hvalid : IsLineRange source.lines.lineCount label.beginLine label.endLine)
    (hplaced : strict → Encloses lines label.lines) : Fits source strict lines [.node label cs] where
  valid := everywhere_node.2 ⟨hvalid, h.valid⟩
  placed := by
    intro hstrict o ho
    rw [List.mem_singleton.1 ho]
    exact hplaced hstrict
  nested := fun hstrict => everywhere_node.2 ⟨h.placed hstrict, h.nested hstrict⟩

/-- A node on the lines of a range. -/
theorem spanning (h : Fits source strict (source.lines.linesOf s) cs) (hg : Grounds source strict program)
    (hs : LieOn source strict lines [s]) (hlabel : label.lines = source.lines.linesOf s := by rfl) :
    Fits source strict lines [.node label cs] := by
  have hencloses : strict → Encloses lines (source.lines.linesOf s) := fun hstrict => hs hstrict s List.mem_cons_self
  have hvalid : IsLineRange source.lines.lineCount label.lines.1 label.lines.2 := by
    rw [hlabel]
    exact ⟨hg.first s, source.lines.linesOf_le s, hg.last s⟩
  rw [← hlabel] at h hencloses
  exact h.node hvalid hencloses

/-- What lies on the lines of a range lies on any lines around it. -/
theorem widen (h : Fits source strict (source.lines.linesOf s) os) (hs : LieOn source strict lines [s]) :
    Fits source strict lines os where
  valid := h.valid
  placed := fun hstrict o ho => (hs hstrict s List.mem_cons_self).trans (h.placed hstrict o ho)
  nested := h.nested

theorem captured (hg : Grounds source strict program) {clause : Captures} (hs : LieOn source strict lines [clause.span])
    (hitems : strict → ∀ item ∈ clause.items, item.span.Inside clause.span ∧ item.name.Inside item.span) :
    Fits source strict lines
      [Outlining.spanning source .closureUse "use" clause.span (clause.items.map (captureNode source))] := by
  refine spanning ?_ hg hs
  revert hitems
  generalize clause.items = items
  induction items with
  | nil => exact fun _ => .nil
  | cons item items ih =>
    intro hitems
    have hitem : LieOn source strict (source.lines.linesOf clause.span) [item.span] :=
      .of_inside fun hstrict => (hitems hstrict item List.mem_cons_self).1
    have hname : LieOn source strict (source.lines.linesOf item.span) [item.name] :=
      .of_inside fun hstrict => (hitems hstrict item List.mem_cons_self).2
    have hnode : Fits source strict (source.lines.linesOf clause.span) [captureNode source item] := by
      rw [captureNode]
      split_ifs
      · exact (nil.spanning hg hname).spanning hg hitem
      · exact (nil.spanning hg hname).widen hitem
    exact hnode.append (ih fun hstrict i hi => hitems hstrict i (List.mem_cons_of_mem _ hi))

theorem colonBody {statements : Phrase (.list .stmt)} {role : Role}
    (h : Fits source strict (sequenceLines source outer statements.spans) (statements.outline source .plain))
    (hg : Grounds source strict program) (hp : (Phrase.colonBody outer statements).parts ⊆ program)
    (hs : LieOn source strict lines [outer]) :
    Fits source strict lines ((Phrase.colonBody outer statements).outline source role) := by
  have hself := hp (Phrase.self_mem_parts _)
  have hstatements := hp (Phrase.parts_subset_of_mem_immediate List.mem_cons_self statements.self_mem_parts)
  rw [← List.append_nil (statements.outline source .plain)] at h
  refine Fits.node h ⟨one_le_sequenceLines hg.first outer _, ?_, sequenceLines_snd_le hg.last outer _⟩ ?_
  · exact sequenceLines_le (hg.orderly.listed _ hstatements rfl) outer
  · intro hstrict
    refine (hs hstrict outer List.mem_cons_self).trans (encloses_sequenceLines ?_)
    rw [← Phrase.ranges_stmts false, ← List.append_nil (statements.ranges false)]
    exact (hg.nested hstrict).inside _ hself rfl false

theorem switchCase {condition : Phrase (.option .expr)} {statements : Phrase (.list .stmt)} {role : Role}
    (h : Fits source strict ((source.lines.linesOf s).1, (sequenceLines source s statements.spans).2)
      (condition.outline source .plain ++ statements.outline source .plain))
    (hg : Grounds source strict program) (hp : (Phrase.switchCase s condition statements).parts ⊆ program)
    (hs : LieOn source strict lines [s]) :
    Fits source strict lines ((Phrase.switchCase s condition statements).outline source role) := by
  have hself := hp (Phrase.self_mem_parts _)
  rw [← List.append_nil (statements.outline source .plain)] at h
  refine Fits.node h ⟨hg.first s, ?_, sequenceLines_snd_le hg.last s _⟩ ?_
  · exact fst_le_sequenceLines (hg.orderly.labelled _ hself)
  · intro hstrict
    have hinside : ∀ r ∈ statements.spans, r.Inside s := by
      rw [← Phrase.ranges_stmts false]
      intro r hr
      refine (hg.nested hstrict).inside _ hself rfl false r (List.mem_append_right _ ?_)
      exact List.mem_append_left _ hr
    have hlines := hs hstrict s List.mem_cons_self
    exact ⟨hlines.1, Nat.le_trans (encloses_sequenceLines hinside).2 hlines.2⟩

theorem flatMap {α : Type} {f : α → List Outline} {xs : List α} (h : ∀ x ∈ xs, Fits source strict lines (f x)) :
    Fits source strict lines (xs.flatMap f) := by
  induction xs with
  | nil => exact .nil
  | cons x xs ih => exact (h x List.mem_cons_self).append (ih fun y hy => h y (List.mem_cons_of_mem _ hy))

end Fits

/-- The range of an anonymous class. -/
def Piece.classed? {α : Type} : Piece α → Option Span
  | .classed span _ => some span
  | _ => none

namespace Phrase

variable {c : Category} {role : Role} {label : Label}

/-- The node of a phrase takes its lines from statements of the phrase. -/
def isBracket : {c : Category} → Phrase c → Bool
  | _, .colonBody _ _ | _, .switchCase _ _ _ => true
  | _, _ => false

theorem lines_of_label? {p : Phrase c} (hp : p.isBracket = false) (h : p.label? source role = Option.some label) :
    label.lines = source.lines.linesOf p.span := by
  cases p with
  | array | throwing | block => cases role <;> cases h <;> rfl
  | exprStmt s e => cases e <;> cases h <;> rfl
  | colonBody | switchCase => cases hp
  | _ => cases h <;> rfl

/-- An anonymous class has the range of the expression. -/
theorem span_eq_of_classed {p : Phrase c} {q : AnyPhrase} (h : .classed s q ∈ p.pieces) : s = p.span := by
  have hclassed : p.pieces.filterMap Piece.classed? ⊆ [p.span] := by
    cases p with
    | handler s binder body => cases binder <;> exact List.nil_subset _
    | closure s params captures body => cases captures <;> exact List.nil_subset _
    | call s callee args => cases callee <;> exact List.nil_subset _
    | anonymousClass => exact List.Subset.refl _
    | _ => exact List.nil_subset _
  exact List.mem_singleton.1 (hclassed (List.mem_filterMap.2 ⟨_, h, rfl⟩))

theorem ranges_eq (source : Source) (role : Role) (p : Phrase c) (hc : c.isSequence = false) :
    p.ranges false = [p.span] ∨ p.outline source role = [] := by
  cases p with
  | nil | cons | none | some => cases hc
  | missing | bareHook | arm => exact .inr rfl
  | _ => exact .inl rfl

end Phrase

/-- A piece lies on the lines on which its ranges lie. -/
theorem fits_piece (hg : Grounds source strict program) {q : AnyPhrase} (hq : q ∈ program) {piece : Piece AnyPhrase}
    (hpiece : piece ∈ q.2.pieces) {role : Role}
    (hpart : ∀ r, piece.part? = some r → ∀ (role : Role) (lines : Nat × Nat),
      LieOn source strict lines (r.2.ranges false) → Fits source strict lines (r.2.outline source role))
    (h : LieOn source strict (source.lines.linesOf q.2.span) (piece.ranges false)) :
    Fits source strict (source.lines.linesOf q.2.span) (piece.outlined source role) := by
  cases piece with
  | shown passing part => exact hpart part rfl _ _ h
  | classed span members =>
    have hspan := congrArg source.lines.linesOf (Phrase.span_eq_of_classed hpiece)
    exact (hpart members rfl .plain _ h).spanning hg .self hspan
  | hidden => exact .nil
  | var | param => exact Fits.nil.spanning hg h
  | captures clause =>
    exact .captured hg h fun hstrict => ((hg.nested hstrict).captured q hq _ hpiece clause rfl).1

/-- A phrase whose node takes its lines from its range lies on the lines on which the range does. -/
theorem fits_of_pieces (hg : Grounds source strict program) {c : Category} {p : Phrase c} {role : Role}
    (hself : ⟨c, p⟩ ∈ program) (hc : c.isSequence = false) (hbracket : p.isBracket = false)
    (hpart : ∀ q ∈ p.immediate, ∀ (role : Role) (lines : Nat × Nat), LieOn source strict lines (q.2.ranges false) →
      Fits source strict lines (q.2.outline source role))
    (h : LieOn source strict lines [p.span]) : Fits source strict lines (p.outline source role) := by
  have hinside : Fits source strict (source.lines.linesOf p.span) (p.inside source role) := by
    refine .flatMap fun piece hpiece => fits_piece hg hself hpiece (fun r hr => ?_) ?_
    · exact hpart r (Phrase.mem_immediate_of_mem_pieces hpiece hr)
    · exact fun hstrict s hs => hg.contents hself hc hstrict s (List.mem_flatMap.2 ⟨piece, hpiece, hs⟩)
  rw [p.outline_eq]
  cases hlabel : p.label? source role with
  | none => exact hinside.widen h
  | some label => exact hinside.spanning hg h (Phrase.lines_of_label? hbracket hlabel)

/-- The outlines of a phrase lie on the lines on which its ranges lie. -/
theorem Phrase.fits (hg : Grounds source strict program) {c : Category} (p : Phrase c) : ∀ (role : Role)
    (lines : Nat × Nat), p.parts ⊆ program → LieOn source strict lines (p.ranges false) →
    Fits source strict lines (p.outline source role) := by
  refine Phrase.induction (motive := fun p => ∀ (role : Role) (lines : Nat × Nat), p.parts ⊆ program →
    LieOn source strict lines (p.ranges false) → Fits source strict lines (p.outline source role)) ?_ p
  intro c p ih role lines hp h
  have hself := hp p.self_mem_parts
  have hpart : ∀ q ∈ p.immediate, ∀ (role : Role) (lines : Nat × Nat), LieOn source strict lines (q.2.ranges false) →
      Fits source strict lines (q.2.outline source role) := fun q hq role lines =>
    ih q hq role lines (parts_subset_trans hq hp)
  cases hc : c.isSequence with
  | true =>
    cases p with
    | nil | none => exact .nil
    | cons head tail =>
      rw [outline_cons]
      have htail : Fits source strict lines (tail.outline source role) :=
        hpart ⟨_, tail⟩ (List.mem_cons_of_mem _ List.mem_cons_self) role lines h.right
      exact (hpart ⟨_, head⟩ List.mem_cons_self role lines h.left).append htail
    | some value =>
      rw [outline_some]
      exact hpart ⟨_, value⟩ List.mem_cons_self role lines h
    | _ => cases hc
  | false =>
    rcases p.ranges_eq source role hc with hranges | hnil
    · rw [hranges] at h
      cases hbracket : p.isBracket with
      | true =>
        cases p with
        | colonBody outer statements =>
          have hstatements := hpart ⟨_, statements⟩ List.mem_cons_self .plain _ (hg.colonBody hself)
          exact .colonBody hstatements hg hp h
        | switchCase s condition statements =>
          have hin := hg.switchCase hself
          have hstatements := hpart ⟨_, statements⟩ (List.mem_cons_of_mem _ List.mem_cons_self) .plain _ hin.right
          exact .switchCase ((hpart ⟨_, condition⟩ List.mem_cons_self .plain _ hin.left).append hstatements) hg hp h
        | _ => cases hbracket
      | false => exact fits_of_pieces hg hself hc hbracket hpart h
    · rw [hnil]
      exact .nil

/-! ### Nodes on lines -/

section Tree

variable {statements : List Stmt} {i p : Nat}

theorem Grounds.ofText {text : String} (h : Orderly program) (hnested : strict → Nested program) :
    Grounds (Source.ofText text) strict program :=
  ⟨fun s => (LineTable.linesOf_ofBytes _ s).1, fun s => (LineTable.linesOf_ofBytes _ s).2, h, hnested⟩

theorem Grounds.fits (hg : Grounds source strict (Phrase.ofList statements).parts) :
    Fits source strict (1, source.lines.lineCount) (outlines source statements) := by
  rw [outlines_eq]
  exact (Phrase.ofList statements).fits hg .plain _ (List.Subset.refl _) fun _ s _ => ⟨hg.first s, hg.last s⟩

theorem lines_root_treeOf (source : Source) (statements : List Stmt) :
    (treeOf source statements).beginLine Tree.root = 1 ∧
      (treeOf source statements).endLine Tree.root = source.lines.lineCount := by
  rw [Tree.beginLine, Tree.endLine, node_root_treeOf]
  exact ⟨rfl, rfl⟩

theorem Grounds.isLineRange (hg : Grounds source strict (Phrase.ofList statements).parts)
    (hi : i < (treeOf source statements).size) :
    IsLineRange source.lines.lineCount ((treeOf source statements).beginLine i)
      ((treeOf source statements).endLine i) := by
  by_cases hroot : i = Tree.root
  · obtain ⟨hbegin, hend⟩ := lines_root_treeOf source statements
    have hcount : 1 ≤ source.lines.lineCount :=
      Nat.le_trans (hg.first default) (Nat.le_trans (source.lines.linesOf_le _) (hg.last default))
    rw [hroot, hbegin, hend]
    exact ⟨Nat.le_refl _, hcount, Nat.le_refl _⟩
  · obtain ⟨o, ho, hholds⟩ := exists_holds_treeOf source statements (Nat.one_le_iff_ne_zero.2 hroot) hi
    have hvalid : IsLineRange source.lines.lineCount o.label.beginLine o.label.endLine := hg.fits.valid o ho
    rwa [← hholds.label_eq] at hvalid

/-- A node lies on the lines of its parent. -/
theorem Grounds.encloses_parent (hg : Grounds source strict (Phrase.ofList statements).parts) (hstrict : strict)
    (hp : (treeOf source statements).parent i = some p) :
    Encloses ((treeOf source statements).node p).lines ((treeOf source statements).node i).lines := by
  have hi := Tree.lt_size_of_parent hp
  have hwf := wellFormed_treeOf source statements
  by_cases hroot : p = Tree.root
  · obtain ⟨hbegin, hend⟩ := lines_root_treeOf source statements
    obtain ⟨hfirst, -, hlast⟩ := hg.isLineRange hi
    rw [hroot]
    exact ⟨Nat.le_trans (Nat.le_of_eq hbegin) hfirst, Nat.le_trans hlast (Nat.le_of_eq hend.symm)⟩
  · have hlt := hwf.parent_lt i p hp
    obtain ⟨o, ho, hholds⟩ := exists_holds_treeOf source statements (Nat.one_le_iff_ne_zero.2 hroot) (by omega)
    obtain ⟨q, hq, hchild⟩ := hholds.exists_child hwf hp
    have hencloses := (hg.fits.nested hstrict) o ho q hq
    rwa [← hholds.label_eq, ← hchild.label_eq] at hencloses

end Tree

end Php

end PhpInspect
