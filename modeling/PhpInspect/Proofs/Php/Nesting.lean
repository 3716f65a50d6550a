import PhpInspect.Proofs.Php.Mentions
import PhpInspect.Proofs.Source.Lines

/-! # Ranges of phrases

In the phrases that a parser makes, the pieces of a phrase follow each other in the source. What a program mentions then
stands in the source in the order in which it is listed. Most parts also lie inside of the whole, but the range of a
heredoc is that of its opening, with its parts behind it, so that the order is not made to depend on that.
-/

namespace PhpInspect

namespace Span

/-- A range ends where another begins, or before. -/
def Precedes (a b : Span) : Prop := a.stop ≤ b.start

instance : DecidableRel Precedes := fun _ _ => inferInstanceAs (Decidable (_ ≤ _))

/-- A range lies inside of another; both may be empty. -/
def Covers (outer s : Span) : Prop := outer.start ≤ s.start ∧ s.stop ≤ outer.stop

instance : DecidableRel Covers := fun _ _ => inferInstanceAs (Decidable (_ ∧ _))

variable {a b s s' outer : Span}

theorem Covers.refl (s : Span) : Covers s s := ⟨Nat.le_refl _, Nat.le_refl _⟩

theorem Inside.covers (h : s.Inside outer) : Covers outer s := ⟨h.1, h.2.2⟩

theorem Covers.trans (h : Covers outer s) (h' : Covers s s') : Covers outer s' :=
  ⟨Nat.le_trans h.1 h'.1, Nat.le_trans h'.2 h.2⟩

theorem Precedes.of_covers (h : Precedes a b) (ha : Covers a s) (hb : Covers b s') : Precedes s s' :=
  Nat.le_trans ha.2 (Nat.le_trans h hb.1)

end Span

namespace Php

open PhpInspect.Span

variable {c : Category} {program : List AnyPhrase}

def Piece.captures? {α : Type} : Piece α → Option Captures
  | .captures clause => some clause
  | _ => none

/-! ### Programs in order -/

/-- The range of a phrase. Sequences have none, and that of a body between a colon and `endif` goes on to the end of the
branches behind it. -/
def Phrase.ownRange : {c : Category} → Phrase c → List Span
  | _, .nil | _, .none | _, .cons _ _ | _, .some _ | _, .missing | _, .bareHook | _, .arm _ _ | _, .colonBody _ _ => []
  | _, p => [p.span]

/-- The ranges in a piece. -/
def Piece.reaches : Piece (List Span) → List Span
  | .shown _ part | .classed _ part => part
  | .hidden _ => []
  | .var name | .param name => [name]
  | .captures clause => clause.items.map Capture.name

/-- The ranges of a phrase and of whatever shows in it. -/
def Phrase.reach (p : Phrase c) : List Span :=
  p.fold fun x pieces => x.2.ownRange ++ pieces.flatMap fun piece => (piece.map Prod.snd).reaches

def Piece.reach (piece : Piece AnyPhrase) : List Span := (piece.map fun q => q.2.reach).reaches

theorem Phrase.reach_eq (p : Phrase c) : p.reach = p.ownRange ++ p.pieces.flatMap Piece.reach := by
  rw [reach, fold_eq]
  simp only [List.flatMap_map, Piece.map_map]
  rfl

/-- Whatever stands in a piece of a phrase ends before the pieces behind it begin, and so do the variables of `use`
clauses. Functions and methods cover what stands in them. -/
structure InOrder (program : List AnyPhrase) : Prop where
  apart : ∀ q ∈ program, (q.2.pieces.map Piece.reach).Pairwise fun a b => ∀ s ∈ a, ∀ s' ∈ b, s.Precedes s'
  captured : ∀ q ∈ program, ∀ piece ∈ q.2.pieces, ∀ clause ∈ piece.captures?,
    (clause.items.map Capture.name).Pairwise Precedes
  covered : ∀ q ∈ program, q.2.isDeclaration = true → ∀ s ∈ q.2.reach, q.2.span.Covers s

instance (program : List AnyPhrase) : Decidable (InOrder program) :=
  decidable_of_iff
    ((∀ q ∈ program, (q.2.pieces.map Piece.reach).Pairwise fun a b => ∀ s ∈ a, ∀ s' ∈ b, s.Precedes s') ∧
      (∀ q ∈ program, ∀ piece ∈ q.2.pieces, ∀ clause ∈ piece.captures?,
        (clause.items.map Capture.name).Pairwise Precedes) ∧
      ∀ q ∈ program, q.2.isDeclaration = true → ∀ s ∈ q.2.reach, q.2.span.Covers s)
    ⟨fun h => ⟨h.1, h.2.1, h.2.2⟩, fun h => ⟨h.apart, h.captured, h.covered⟩⟩

/-! ### Mentions in the source -/

namespace Mention

def span : Mention → Span
  | .unit declaration => declaration.val.2.span
  | .var name | .param name => name

/-- A mention ends before another begins, unless it is a function or method around the other. -/
def Before (a b : Mention) : Prop := a.span.Precedes b.span ∨ a.unit?.isSome ∧ a.span.Covers b.span

end Mention

theorem Piece.span_mem_reach (piece : Piece AnyPhrase)
    (h : ∀ q, piece.part? = some q → ∀ m ∈ q.2.mentions, m.span ∈ q.2.reach) :
    ∀ m ∈ piece.mentioned, m.span ∈ piece.reach := by
  intro m hm
  cases piece with
  | shown _ part | classed _ part => exact h part rfl m hm
  | hidden => cases hm
  | var | param =>
    rw [List.mem_singleton.1 hm]
    exact List.mem_singleton.2 rfl
  | captures clause =>
    obtain ⟨item, hitem, rfl⟩ := List.mem_map.1 hm
    exact List.mem_map.2 ⟨item, hitem, rfl⟩

namespace Phrase

theorem mem_ownRange_of_isDeclaration {p : Phrase c} (h : p.isDeclaration = true) : p.span ∈ p.ownRange := by
  cases p with
  | function | method => exact List.mem_singleton.2 rfl
  | _ => cases h

/-- What a phrase mentions has its range among those in the phrase. -/
theorem span_mem_reach (p : Phrase c) : ∀ m ∈ p.mentions, m.span ∈ p.reach := by
  refine induction (motive := fun p => ∀ m ∈ p.mentions, m.span ∈ p.reach) ?_ p
  intro c p ih m hm
  rw [mentions_eq] at hm
  rw [reach_eq]
  rcases List.mem_append.1 hm with hm | hm
  · rw [AnyPhrase.unit] at hm
    split_ifs at hm with hunit
    · rw [List.mem_singleton.1 hm]
      exact List.mem_append_left _ (mem_ownRange_of_isDeclaration hunit)
    · cases hm
  · obtain ⟨piece, hpiece, hm⟩ := List.mem_flatMap.1 hm
    have hpart := fun q hq => ih q (mem_immediate_of_mem_pieces hpiece hq)
    exact List.mem_append_right _ (List.mem_flatMap.2 ⟨piece, hpiece, piece.span_mem_reach hpart m hm⟩)

end Phrase

namespace InOrder

theorem pairwise_piece (h : InOrder program) {q : AnyPhrase} (hq : q ∈ program) {piece : Piece AnyPhrase}
    (hpiece : piece ∈ q.2.pieces) (hpart : ∀ r, piece.part? = some r → r.2.mentions.Pairwise Mention.Before) :
    piece.mentioned.Pairwise Mention.Before := by
  cases piece with
  | shown _ part | classed _ part => exact hpart part rfl
  | hidden => exact .nil
  | var | param => exact List.pairwise_singleton _ _
  | captures clause =>
    have hnames := h.captured q hq _ hpiece clause rfl
    exact List.pairwise_map.2 ((List.pairwise_map.1 hnames).imp .inl)

theorem pairwise_mentions (h : InOrder program) (p : Phrase c) :
    p.parts ⊆ program → p.mentions.Pairwise Mention.Before := by
  refine Phrase.induction (motive := fun p => p.parts ⊆ program → p.mentions.Pairwise Mention.Before) ?_ p
  intro c p ih hp
  have hself := hp p.self_mem_parts
  have hpieces : (p.pieces.flatMap Piece.mentioned).Pairwise Mention.Before := by
    refine List.pairwise_flatMap.2 ⟨fun piece hpiece => ?_, ?_⟩
    · refine h.pairwise_piece hself hpiece fun r hr => ?_
      have hmem := Phrase.mem_immediate_of_mem_pieces hpiece hr
      exact ih r hmem (Phrase.parts_subset_trans hmem hp)
    · refine (List.pairwise_map.1 (h.apart _ hself)).imp fun {a b} hab m hm m' hm' => .inl ?_
      exact hab _ (a.span_mem_reach (fun r _ => r.2.span_mem_reach) m hm) _
        (b.span_mem_reach (fun r _ => r.2.span_mem_reach) m' hm')
  rw [p.mentions_eq, AnyPhrase.unit]
  split_ifs with hunit
  · refine List.pairwise_cons.2 ⟨fun m hm => .inr ⟨rfl, h.covered _ hself hunit _ ?_⟩, hpieces⟩
    refine p.span_mem_reach m ?_
    rw [p.mentions_eq]
    exact List.mem_append_right _ hm
  · exact hpieces

variable {statements : List Stmt}

/-- The variables of a program stand apart, in the order in which they are listed. -/
theorem pairwise_variableNames (h : InOrder (Phrase.ofList statements).parts) :
    (Phrase.ofList statements).variableNames.Pairwise Precedes := by
  have hmentions := h.pairwise_mentions (Phrase.ofList statements) (List.Subset.refl _)
  refine List.pairwise_filterMap.2 (hmentions.imp fun {a b} hbefore s hs s' hs' => ?_)
  cases a <;> cases hs
  cases b <;> cases hs'
  rcases hbefore with hbefore | ⟨hunit, -⟩
  · exact hbefore
  · cases hunit

/-- A function or method is listed before those inside of it and before those that follow it. -/
theorem pairwise_declarations (h : InOrder (Phrase.ofList statements).parts) :
    (Phrase.ofList statements).declarations.Pairwise fun a b =>
      a.val.2.span.Precedes b.val.2.span ∨ a.val.2.span.Covers b.val.2.span := by
  have hmentions := h.pairwise_mentions (Phrase.ofList statements) (List.Subset.refl _)
  refine List.pairwise_filterMap.2 (hmentions.imp fun {a b} hbefore s hs s' hs' => ?_)
  cases a <;> cases hs
  cases b <;> cases hs'
  exact hbefore.imp_right And.right

end InOrder

/-! ### Programs whose ranges are nested -/

/-- The ranges that a phrase takes up, a sequence those of its members. A body between a colon and `endif` takes up,
if `inline`, those of its statements, for its own range goes on to the end of the branches behind it. -/
def Phrase.ranges (inline : Bool) : {c : Category} → Phrase c → List Span
  | _, .nil | _, .none | _, .missing | _, .bareHook | _, .arm _ _ => []
  | _, .cons head tail => head.ranges inline ++ tail.ranges inline
  | _, .some p => p.ranges inline
  | _, .colonBody outer statements => if inline then statements.ranges inline else [outer]
  | _, p => [p.span]

def Piece.ranges (inline : Bool) : Piece AnyPhrase → List Span
  | .shown _ q | .classed _ q => q.2.ranges inline
  | .hidden _ => []
  | .var name | .param name => [name]
  | .captures clause => [clause.span]

/-- The ranges of the pieces of a phrase, apart from those that the analysis tree hides. -/
def Phrase.contents (inline : Bool) (p : Phrase c) : List Span := p.pieces.flatMap (Piece.ranges inline)

/-- The range of the phrase is that of a variable that it names. -/
def Phrase.isVariable : {c : Category} → Phrase c → Bool
  | _, .direct _ | _, .staticItem _ _ => true
  | _, _ => false

/-- The pieces of phrases are not empty, lie inside of the phrases and follow each other, and so do the variables of
`use` clauses. -/
structure Nested (program : List AnyPhrase) : Prop where
  inside : ∀ q ∈ program, (q.1.isSequence || q.2.isVariable) = false → ∀ inline, ∀ s ∈ q.2.contents inline,
    s.Inside q.2.span
  apart : ∀ q ∈ program, (q.2.contents true).Pairwise Precedes
  captured : ∀ q ∈ program, ∀ piece ∈ q.2.pieces, ∀ clause ∈ piece.captures?,
    (∀ item ∈ clause.items, item.span.Inside clause.span ∧ item.name.Inside item.span) ∧
      (clause.items.map Capture.span).Pairwise Precedes

instance (program : List AnyPhrase) : Decidable (Nested program) :=
  decidable_of_iff
    ((∀ q ∈ program, (q.1.isSequence || q.2.isVariable) = false → ∀ inline, ∀ s ∈ q.2.contents inline,
        s.Inside q.2.span) ∧
      (∀ q ∈ program, (q.2.contents true).Pairwise Precedes) ∧
      ∀ q ∈ program, ∀ piece ∈ q.2.pieces, ∀ clause ∈ piece.captures?,
        (∀ item ∈ clause.items, item.span.Inside clause.span ∧ item.name.Inside item.span) ∧
          (clause.items.map Capture.span).Pairwise Precedes)
    ⟨fun h => ⟨h.1, h.2.1, h.2.2⟩, fun h => ⟨h.inside, h.apart, h.captured⟩⟩

namespace Phrase

theorem ownRange_subset_ranges (p : Phrase c) : p.ownRange ⊆ p.ranges true := by
  cases p <;> first | exact List.nil_subset _ | exact List.Subset.refl _

/-- A phrase takes up its own range, or that of its pieces. -/
theorem contents_subset_ranges (p : Phrase c) :
    p.contents true ⊆ p.ranges true ∨ (c.isSequence || p.isVariable) = false ∧ p.ranges true = [p.span] := by
  cases p with
  | nil | none | missing | bareHook | arm => exact .inl (List.nil_subset _)
  | direct | staticItem => exact .inl (List.Subset.refl _)
  | cons head tail =>
    refine .inl ?_
    change head.ranges true ++ (tail.ranges true ++ []) ⊆ head.ranges true ++ tail.ranges true
    rw [List.append_nil]
    exact List.Subset.refl _
  | some value | colonBody s value =>
    refine .inl ?_
    change value.ranges true ++ [] ⊆ value.ranges true
    rw [List.append_nil]
    exact List.Subset.refl _
  | _ => exact .inr ⟨rfl, rfl⟩

end Phrase

namespace Nested

variable {q : AnyPhrase} {s : Span}

theorem exists_covers_piece (h : Nested program) (hq : q ∈ program) {piece : Piece AnyPhrase}
    (hpiece : piece ∈ q.2.pieces)
    (hpart : ∀ r, piece.part? = some r → ∀ s ∈ r.2.reach, ∃ r' ∈ r.2.ranges true, Covers r' s)
    (hs : s ∈ piece.reach) : ∃ r ∈ piece.ranges true, Covers r s := by
  cases piece with
  | shown _ part | classed _ part => exact hpart part rfl s hs
  | hidden => cases hs
  | var name | param name => exact ⟨s, hs, .refl s⟩
  | captures clause =>
    obtain ⟨item, hitem, rfl⟩ := List.mem_map.1 hs
    obtain ⟨hinside, hname⟩ := (h.captured q hq _ hpiece clause rfl).1 item hitem
    exact ⟨clause.span, List.mem_singleton.2 rfl, hinside.covers.trans hname.covers⟩

theorem exists_covers (h : Nested program) (p : Phrase c) :
    p.parts ⊆ program → ∀ s ∈ p.reach, ∃ r ∈ p.ranges true, Covers r s := by
  refine Phrase.induction (motive := fun p => p.parts ⊆ program → ∀ s ∈ p.reach, ∃ r ∈ p.ranges true, Covers r s) ?_ p
  intro c p ih hp s hs
  have hself := hp p.self_mem_parts
  rw [p.reach_eq] at hs
  rcases List.mem_append.1 hs with hs | hs
  · exact ⟨s, p.ownRange_subset_ranges hs, .refl s⟩
  · obtain ⟨piece, hpiece, hs⟩ := List.mem_flatMap.1 hs
    obtain ⟨r, hr, hcovers⟩ := h.exists_covers_piece hself hpiece (fun r hr =>
      have hmem := Phrase.mem_immediate_of_mem_pieces hpiece hr
      ih r hmem (Phrase.parts_subset_trans hmem hp)) hs
    have hcontents : r ∈ p.contents true := List.mem_flatMap.2 ⟨piece, hpiece, hr⟩
    rcases p.contents_subset_ranges with hsub | ⟨hc, hranges⟩
    · exact ⟨r, hsub hcontents, hcovers⟩
    · rw [hranges]
      refine ⟨p.span, List.mem_singleton.2 rfl, ?_⟩
      exact (h.inside _ hself hc true r hcontents).covers.trans hcovers

/-- Programs whose ranges are nested are in order. -/
theorem inOrder (h : Nested program) (hcomplete : Complete program) : InOrder program where
  apart := by
    intro q hq
    have hpart : ∀ {piece}, piece ∈ q.2.pieces → ∀ s ∈ piece.reach, ∃ r ∈ piece.ranges true, Covers r s :=
      fun hpiece s hs => h.exists_covers_piece hq hpiece (fun r hr => h.exists_covers r.2
        (Phrase.parts_subset_trans (Phrase.mem_immediate_of_mem_pieces hpiece hr) (hcomplete q hq))) hs
    refine List.pairwise_map.2 ((List.pairwise_flatMap.1 (h.apart q hq)).2.imp_of_mem ?_)
    intro a b ha hb hab s hs s' hs'
    obtain ⟨r, hr, hcovers⟩ := hpart ha s hs
    obtain ⟨r', hr', hcovers'⟩ := hpart hb s' hs'
    exact (hab r hr r' hr').of_covers hcovers hcovers'
  captured := by
    intro q hq piece hpiece clause hclause
    obtain ⟨hinside, hitems⟩ := h.captured q hq piece hpiece clause hclause
    refine List.pairwise_map.2 ((List.pairwise_map.1 hitems).imp_of_mem fun {a b} ha hb hab => ?_)
    exact hab.of_covers (hinside a ha).2.covers (hinside b hb).2.covers
  covered := by
    intro q hq hunit s hs
    obtain ⟨r, hr, hcovers⟩ := h.exists_covers q.2 (hcomplete q hq) s hs
    obtain ⟨c, p⟩ := q
    cases p with
    | function | method =>
      rw [List.mem_singleton.1 hr] at hcovers
      exact hcovers
    | _ => cases hunit

end Nested

end Php

end PhpInspect
