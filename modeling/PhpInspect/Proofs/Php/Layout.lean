import Mathlib.Data.List.Chain
import PhpInspect.Proofs.Php.Origin
import PhpInspect.Proofs.Source.Lines

/-! # Programs with one statement to a line

In a program that is laid out line by line, a statement begins below the one before it, and what closes a block stands
below the statements of the block. The nodes of the statements then follow each other on the lines in the same way.
-/

namespace PhpInspect.Php

open Outline Outlining

variable {source : Source} {lines : LineTable} {c : Category} {s last outer : Span} {spans spans' : List Span}
  {ls ls' : List Label} {program : List AnyPhrase}

/-! ### Layouts -/

/-- A range ends on a line above the first line of another. -/
def Before (lines : LineTable) (a b : Span) : Prop := (lines.linesOf a).2 < (lines.linesOf b).1

instance (lines : LineTable) : DecidableRel (Before lines) := fun _ _ => inferInstanceAs (Decidable (_ < _))

instance (lines : LineTable) : IsTrans Span (Before lines) where
  trans _ b _ hab hbc := Nat.lt_trans (Nat.lt_of_lt_of_le hab (lines.linesOf_le b)) hbc

/-- The categories of phrases that lie inside of each other or apart. -/
def Category.isRegion : Category → Bool
  | .stmt | .block | .member => true
  | _ => false

/-- The ranges of the statements between braces. -/
def Phrase.bracedSpans : {c : Category} → Phrase c → List Span
  | _, .block _ statements => statements.spans
  | _, _ => []

/-- Statements, blocks and members lie inside of each other, a statement begins below the one before it, and a brace
closes a block below its last statement. -/
structure Spaced (lines : LineTable) (program : List AnyPhrase) : Prop where
  nested : ∀ q ∈ program, q.1.isRegion = true → ∀ r ∈ q.2.parts, r.1.isRegion = true → r.2.span.Inside q.2.span
  apart : ∀ q ∈ program, q.1 = .list .stmt → q.2.spans.IsChain (Before lines)
  closed : ∀ q ∈ program, ∀ last ∈ q.2.bracedSpans.getLast?, (lines.linesOf last).2 < (lines.linesOf q.2.span).2

instance (lines : LineTable) (program : List AnyPhrase) : Decidable (Spaced lines program) :=
  decidable_of_iff
    ((∀ q ∈ program, q.1.isRegion = true → ∀ r ∈ q.2.parts, r.1.isRegion = true → r.2.span.Inside q.2.span) ∧
      (∀ q ∈ program, q.1 = .list .stmt → q.2.spans.IsChain (Before lines)) ∧
      ∀ q ∈ program, ∀ last ∈ q.2.bracedSpans.getLast?, (lines.linesOf last).2 < (lines.linesOf q.2.span).2)
    ⟨fun h => ⟨h.1, h.2.1, h.2.2⟩, fun h => ⟨h.nested, h.apart, h.closed⟩⟩

theorem Spaced.isChain (h : Spaced lines program) {statements : Phrase (.list .stmt)}
    (hp : statements.parts ⊆ program) : statements.spans.IsChain (Before lines) :=
  h.apart ⟨_, statements⟩ (hp statements.self_mem_parts) rfl

theorem le_getLast? (h : spans.IsChain (Before lines)) (hs : s ∈ spans) (hlast : spans.getLast? = some last) :
    (lines.linesOf s).2 ≤ (lines.linesOf last).2 := by
  obtain ⟨init, rfl⟩ := List.getLast?_eq_some_iff.1 hlast
  rw [List.isChain_iff_pairwise, List.pairwise_append] at h
  rcases List.mem_append.1 hs with hs | hs
  · have hbefore : Before lines s last := h.2.2 s hs last List.mem_cons_self
    exact Nat.le_of_lt (Nat.lt_of_lt_of_le hbefore (lines.linesOf_le last))
  · rw [List.mem_singleton.1 hs]

/-- The last line of some ranges that stand below each other. -/
theorem le_sequenceLines (h : spans.IsChain (Before source.lines)) (hs : s ∈ spans) (outer : Span) :
    (source.lines.linesOf s).2 ≤ (sequenceLines source outer spans).2 := by
  cases spans with
  | nil => cases hs
  | cons first rest =>
    have hlast := List.getLast?_eq_some_getLast (List.cons_ne_nil first rest)
    rw [sequenceLines, List.head?_cons, hlast]
    exact le_getLast? h hs hlast

theorem Phrase.exists_of_mem_spans (p : Phrase c) (hs : s ∈ p.spans) : ∃ d, ∃ q : Phrase d, c = .list d ∧
    ⟨d, q⟩ ∈ p.parts ∧ q.span = s := by
  induction p with
  | cons head tail _ ih =>
    rcases List.mem_cons.1 hs with rfl | hs
    · exact ⟨_, head, rfl, mem_parts.2 (.inr ⟨_, .head _, head.self_mem_parts⟩), rfl⟩
    · obtain ⟨d, q, heq, hq, hspan⟩ := ih hs
      cases heq
      exact ⟨_, q, rfl, mem_parts.2 (.inr ⟨_, .tail _ (.head _), hq⟩), hspan⟩
  | _ => cases hs

/-! ### Nodes on lines -/

/-- Nodes stand below each other, each on the lines of one of some ranges. -/
structure Stacked (lines : LineTable) (spans : List Span) (ls : List Label) : Prop where
  pairwise : ls.Pairwise fun a b => a.endLine < b.beginLine
  placed : ∀ l ∈ ls, l.beginLine ≤ l.endLine ∧
    ∃ s ∈ spans, (lines.linesOf s).1 ≤ l.beginLine ∧ l.endLine ≤ (lines.linesOf s).2

namespace Stacked

theorem nil : Stacked lines spans [] := ⟨.nil, nofun⟩

theorem append (h : Stacked lines spans ls) (h' : Stacked lines spans' ls')
    (hbefore : ∀ a ∈ spans, ∀ b ∈ spans', Before lines a b) : Stacked lines (spans ++ spans') (ls ++ ls') where
  pairwise := by
    refine List.pairwise_append.2 ⟨h.pairwise, h'.pairwise, fun a ha b hb => ?_⟩
    obtain ⟨-, s, hs, -, hend⟩ := h.placed a ha
    obtain ⟨-, s', hs', hbegin, -⟩ := h'.placed b hb
    exact Nat.lt_of_le_of_lt hend (Nat.lt_of_lt_of_le (hbefore s hs s' hs') hbegin)
  placed := by
    intro l hl
    rcases List.mem_append.1 hl with hl | hl
    · obtain ⟨hle, s, hs, hlines⟩ := h.placed l hl
      exact ⟨hle, s, List.mem_append_left _ hs, hlines⟩
    · obtain ⟨hle, s, hs, hlines⟩ := h'.placed l hl
      exact ⟨hle, s, List.mem_append_right _ hs, hlines⟩

theorem spanning {kind : Kind} {image : String} {cs : List Outline} :
    Stacked source.lines [s] ([Outlining.spanning source kind image s cs].map Outline.label) where
  pairwise := List.pairwise_singleton _ _
  placed := by
    intro l hl
    rw [List.mem_singleton.1 hl]
    exact ⟨source.lines.linesOf_le s, s, List.mem_cons_self, Nat.le_refl _, Nat.le_refl _⟩

/-- Nodes on the lines of ranges lie on the lines of a range around these. -/
theorem widen (h : Stacked lines spans ls) (hspans : ∀ a ∈ spans, a.Inside outer) : Stacked lines [outer] ls where
  pairwise := h.pairwise
  placed := by
    intro l hl
    obtain ⟨hle, s, hs, hbegin, hend⟩ := h.placed l hl
    obtain ⟨hfirst, hlast⟩ := LineTable.linesOf_of_inside (t := lines) (hspans s hs)
    exact ⟨hle, outer, List.mem_cons_self, hfirst.trans hbegin, hend.trans hlast⟩

end Stacked

/-- The ranges of the statements that a phrase consists of. -/
def Phrase.extent : {c : Category} → Phrase c → List Span
  | .list _, p => p.spans
  | _, p => [p.span]

/-- The nodes of statements stand below each other if the statements do. -/
theorem Phrase.stacked (h : Spaced source.lines program) (p : Phrase c) (hp : p.parts ⊆ program)
    (hc : c = .stmt ∨ c = .list .stmt) :
    Stacked source.lines p.extent ((p.outline source .plain).map Outline.label) := by
  induction p with
  | nil => exact .nil
  | cons head tail ihead itail =>
    obtain rfl : _ = Category.stmt := by simpa using hc
    have hbefore : ∀ b ∈ tail.spans, Before source.lines head.span b :=
      (List.pairwise_cons.1 (List.isChain_iff_pairwise.1 (h.isChain hp))).1
    have hhead := ihead (parts_subset_trans (.head _) hp) (.inl rfl)
    have htail := itail (parts_subset_trans (.tail _ (.head _)) hp) (.inr rfl)
    rw [outline_cons, List.map_append]
    exact hhead.append htail fun a ha => List.mem_singleton.1 ha ▸ hbefore
  | namespaced s statements ih =>
    change Stacked source.lines [s] ((statements.outline source .plain ++ []).map Outline.label)
    rw [List.append_nil]
    refine (ih (parts_subset_trans (.head _) hp) (.inr rfl)).widen fun a ha => ?_
    obtain ⟨d, q, heq, hq, rfl⟩ := statements.exists_of_mem_spans ha
    cases heq
    have hself := hp (Phrase.namespaced s statements).self_mem_parts
    exact h.nested _ hself rfl ⟨_, q⟩ (parts_subset_of_mem_immediate (.head _) hq) rfl
  | exprStmt s e => cases e <;> exact .spanning
  | blockStmt body =>
    cases body
    exact .spanning
  | ret | echo | branch | switch | tryCatch | forEach | forLoop | whileLoop | doWhile | global | static | function
  | classLike | other => exact .spanning
  | _ => simp at hc

end PhpInspect.Php
