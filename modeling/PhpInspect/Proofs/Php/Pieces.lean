import PhpInspect.Php.Lowering

/-! # What phrases are made of

A phrase is made of pieces, in the order of the source: of parts, which are phrases themselves, and of names that are
none. One table says what the pieces of a phrase are and how the analysis tree shows them. Definitions and proofs about
all the phrases of a program go through this table.
-/

namespace PhpInspect.Php

/-- A phrase of some category. -/
abbrev AnyPhrase := (c : Category) × Phrase c

/-- The role of a part, given the role of the whole. -/
inductive Passing where
  | as (role : Role)
  | same
  | inner

def Passing.role : Passing → Role → Role
  | .as role, _ => role
  | .same, role => role
  | .inner, role => role.inner

/-- A piece of a phrase, with a value in the place of a part. -/
inductive Piece (α : Type) where
  /-- A part whose nodes stand where the piece does. -/
  | shown (passing : Passing) (part : α)
  /-- The members of an anonymous class, which stand below a node for the class. -/
  | classed (span : Span) (members : α)
  /-- A part without nodes. -/
  | hidden (part : α)
  -- Names that are no phrases.
  | var (name : Span)
  | param (name : Span)
  | captures (clause : Captures)

namespace Piece

variable {α β γ : Type}

def map (f : α → β) : Piece α → Piece β
  | .shown passing part => .shown passing (f part)
  | .classed span members => .classed span (f members)
  | .hidden part => .hidden (f part)
  | .var name => .var name
  | .param name => .param name
  | .captures clause => .captures clause

def part? : Piece α → Option α
  | .shown _ part | .classed _ part | .hidden part => some part
  | _ => none

/-- The part that a piece hides. -/
def hidden? : Piece α → Option α
  | .hidden part => some part
  | _ => none

theorem part?_map (f : α → β) (piece : Piece α) : (piece.map f).part? = piece.part?.map f := by cases piece <;> rfl

theorem map_map (f : α → β) (g : β → γ) (piece : Piece α) : (piece.map f).map g = piece.map (g ∘ f) := by
  cases piece <;> rfl

theorem filterMap_part?_map (f : α → β) (pieces : List (Piece α)) :
    (pieces.map (map f)).filterMap part? = (pieces.filterMap part?).map f := by
  rw [List.filterMap_map, List.map_filterMap]
  exact congrArg (List.filterMap · pieces) (funext (part?_map f))

variable {c : Category}

/-! Parts with what was made of them, by their role. -/

def same (p : Phrase c) (a : α) : Piece (AnyPhrase × α) := .shown .same (⟨c, p⟩, a)

def inner (p : Phrase c) (a : α) : Piece (AnyPhrase × α) := .shown .inner (⟨c, p⟩, a)

def of (role : Role) (p : Phrase c) (a : α) : Piece (AnyPhrase × α) := .shown (.as role) (⟨c, p⟩, a)

def plain (p : Phrase c) (a : α) : Piece (AnyPhrase × α) := of .plain p a

def hide (p : Phrase c) (a : α) : Piece (AnyPhrase × α) := .hidden (⟨c, p⟩, a)

end Piece

variable {α : Type} {c : Category}

namespace Phrase

open Piece

/-- Works through a phrase from the inside out. The step is given a phrase and its pieces, each part of it with what was
made of this part. -/
def fold (step : AnyPhrase → List (Piece (AnyPhrase × α)) → α) : {c : Category} → Phrase c → α := fun {c} p =>
  step ⟨c, p⟩ <| match c, p with
  | _, .nil | _, .none | _, .missing | _, .name _ | _, .constant _ | _, .literal _ | _, .selectName _
  | _, .bareHook => []
  | _, .cons p q => [same p (p.fold step), same q (q.fold step)]
  | _, .some p => [same p (p.fold step)]
  -- Names.
  | _, .direct s => [.var s]
  | _, .staticItem s p => [.var s, hide p (p.fold step)]
  | _, .parameter _ id p q => [.param id, hide p (p.fold step), hide q (q.fold step)]
  | _, .handler _ binder p => binder.toList.map .var ++ [plain p (p.fold step)]
  | _, .closure _ p clause q =>
    plain p (p.fold step) :: (clause.toList.map .captures ++ [of .callableBody q (q.fold step)])
  -- Phrases that the analysis tree does not look into.
  | _, .indirect _ p | _, .nested _ p | _, .callable _ p | _, .selectVar p | _, .selectBraced _ p | _, .exprHook p
  | _, .blockHook p => [hide p (p.fold step)]
  | _, .arrow _ p q | _, .matching _ p q | _, .arm p q | _, .declaration _ p q | _, .other _ p q =>
    [hide p (p.fold step), hide q (q.fold step)]
  | _, .member _ p q => [plain p (p.fold step), hide q (q.fold step)]
  | _, .methodCall _ p q r => [plain p (p.fold step), hide q (q.fold step), plain r (r.fold step)]
  | _, .call _ p q =>
    [if p.isName then hide p (p.fold step) else plain p (p.fold step), plain q (q.fold step)]
  -- Targets and bodies.
  | _, .paren _ p | _, .array _ p | _, .single p | _, .blockStmt p => [inner p (p.fold step)]
  | _, .pair p q => [plain p (p.fold step), inner q (q.fold step)]
  | _, .list _ p => [of .target p (p.fold step)]
  | _, .assign _ p q => [of .target p (p.fold step), plain q (q.fold step)]
  | _, .forEach _ p q r s =>
    [plain p (p.fold step), of .target q (q.fold step), of .target r (r.fold step), plain s (s.fold step)]
  | _, .function _ _ p q | _, .method _ _ p q => [plain p (p.fold step), of .callableBody q (q.fold step)]
  | _, .anonymousClass s p q => [plain p (p.fold step), .classed s (⟨_, q⟩, q.fold step)]
  | _, .stmtBody p => [of .body p (p.fold step)]
  | _, .exprStmt _ p => [of .statement p (p.fold step)]
  -- All else.
  | _, .ofVar p | _, .prefixed _ _ p | _, .postfixed _ p | _, .append _ p | _, .legacyArray _ p | _, .isset _ p
  | _, .keyword _ _ p | _, .throwing _ p | _, .exit _ _ p | _, .yieldValue _ p | _, .interpolated _ _ p
  | _, .arguments _ p | _, .positional p | _, .spreadArgument p | _, .namedArgument _ _ p | _, .spreadElement p
  | _, .parameters _ p | _, .block _ p | _, .colonBody _ p | _, .otherwise _ p | _, .cleanup _ p | _, .ret _ p
  | _, .echo _ p | _, .global _ p | _, .static _ p | _, .classLike _ _ p | _, .namespaced _ p =>
    [plain p (p.fold step)]
  | _, .binary _ p q | _, .index _ p q | _, .instantiate _ p q | _, .yieldPair _ p q | _, .pipe _ p q
  | _, .elseIf _ p q | _, .switchCase _ p q | _, .switch _ p q | _, .whileLoop _ p q | _, .doWhile _ p q =>
    [plain p (p.fold step), plain q (q.fold step)]
  | _, .conditional _ p q r | _, .tryCatch _ p q r =>
    [plain p (p.fold step), plain q (q.fold step), plain r (r.fold step)]
  | _, .branch _ p q r s | _, .forLoop _ p q r s =>
    [plain p (p.fold step), plain q (q.fold step), plain r (r.fold step), plain s (s.fold step)]

def pieces (p : Phrase c) : List (Piece AnyPhrase) := p.fold fun _ pieces => pieces.map (Piece.map Prod.fst)

/-- The immediate parts of a phrase. -/
def immediate (p : Phrase c) : List AnyPhrase := p.pieces.filterMap Piece.part?

/-- The immediate parts of a phrase that the analysis tree does not show. -/
def hidden (p : Phrase c) : List AnyPhrase := p.pieces.filterMap Piece.hidden?

theorem fold_eq (step : AnyPhrase → List (Piece (AnyPhrase × α)) → α) (p : Phrase c) :
    p.fold step = step ⟨c, p⟩ (p.pieces.map (Piece.map fun q => (q, q.2.fold step))) := by
  cases p with
  | handler s binder body => cases binder <;> rfl
  | closure s params captures body => cases captures <;> rfl
  | call s callee args => cases callee <;> rfl
  | _ => rfl

/-- What a phrase inherits from its immediate parts holds of every phrase. -/
theorem induction {motive : {c : Category} → Phrase c → Prop}
    (step : ∀ {c : Category} (p : Phrase c), (∀ q ∈ p.immediate, motive q.2) → motive p) (p : Phrase c) : motive p := by
  have hnil : ∀ q ∈ ([] : List AnyPhrase), motive q.2 := List.forall_mem_nil _
  induction p with
  | handler s binder body ih => cases binder <;> exact step _ (List.forall_mem_cons.2 ⟨ih, hnil⟩)
  | closure s params captures body ihparams ihbody =>
    cases captures <;> exact step _ (List.forall_mem_cons.2 ⟨ihparams, List.forall_mem_cons.2 ⟨ihbody, hnil⟩⟩)
  | call s callee args ihcallee ihargs =>
    cases callee <;> exact step _ (List.forall_mem_cons.2 ⟨ihcallee, List.forall_mem_cons.2 ⟨ihargs, hnil⟩⟩)
  | _ =>
    apply step
    repeat first | exact hnil | refine List.forall_mem_cons.2 ⟨by assumption, ?_⟩

/-! ### All phrases of a program -/

/-- A phrase and all phrases inside of it, those that the analysis tree hides included, in the order of the source. -/
def parts (p : Phrase c) : List AnyPhrase :=
  p.fold fun x pieces => x :: (pieces.filterMap Piece.part?).flatMap Prod.snd

theorem parts_eq (p : Phrase c) : p.parts = ⟨c, p⟩ :: p.immediate.flatMap fun q => q.2.parts := by
  rw [parts, fold_eq, filterMap_part?_map, List.flatMap_map]
  rfl

theorem mem_parts {p : Phrase c} {r : AnyPhrase} :
    r ∈ p.parts ↔ r = ⟨c, p⟩ ∨ ∃ q ∈ p.immediate, r ∈ q.2.parts := by
  rw [parts_eq, List.mem_cons, List.mem_flatMap]

theorem self_mem_parts (p : Phrase c) : ⟨c, p⟩ ∈ p.parts := mem_parts.2 (.inl rfl)

theorem parts_subset_of_mem_immediate {p : Phrase c} {q : AnyPhrase} (h : q ∈ p.immediate) : q.2.parts ⊆ p.parts :=
  fun _ hr => mem_parts.2 (.inr ⟨q, h, hr⟩)

/-- What a phrase inherits from all phrases inside of it holds of every phrase. -/
theorem strongInduction {motive : {c : Category} → Phrase c → Prop}
    (step : ∀ {c : Category} (p : Phrase c), (∀ r ∈ p.immediate, ∀ q ∈ r.2.parts, motive q.2) → motive p)
    (p : Phrase c) : motive p := by
  refine induction (motive := fun p => ∀ q ∈ p.parts, motive q.2) (fun p ih q hq => ?_) p ⟨c, p⟩ p.self_mem_parts
  rcases mem_parts.1 hq with rfl | ⟨r, hr, hq⟩
  · exact step p ih
  · exact ih r hr q hq

theorem parts_subset_trans {p : Phrase c} {q : AnyPhrase} {whole : List AnyPhrase} (h : q ∈ p.immediate)
    (hp : p.parts ⊆ whole) : q.2.parts ⊆ whole := List.Subset.trans (parts_subset_of_mem_immediate h) hp

end Phrase

/-- Some phrases include the parts of each of them. -/
def Complete (ps : List AnyPhrase) : Prop := ∀ q ∈ ps, q.2.parts ⊆ ps

theorem Complete.mem {ps : List AnyPhrase} {q r : AnyPhrase} (h : Complete ps) (hq : q ∈ ps) (hr : r ∈ q.2.immediate) :
    r ∈ ps := h q hq (Phrase.parts_subset_of_mem_immediate hr r.2.self_mem_parts)

namespace Phrase

theorem complete_parts (p : Phrase c) : Complete p.parts := by
  refine induction (motive := fun p => Complete p.parts) (fun p ih q hq => ?_) p
  rcases mem_parts.1 hq with rfl | ⟨r, hr, hq⟩
  · exact List.Subset.refl _
  · exact List.Subset.trans (ih r hr q hq) (parts_subset_of_mem_immediate hr)

theorem mem_immediate_of_mem_pieces {p : Phrase c} {piece : Piece AnyPhrase} {q : AnyPhrase} (h : piece ∈ p.pieces)
    (hq : piece.part? = Option.some q) : q ∈ p.immediate := List.mem_filterMap.2 ⟨piece, h, hq⟩

end Phrase

/-- A phrase stands in a part of the program that the analysis tree does not show. -/
def Hidden (program : List AnyPhrase) (q : AnyPhrase) : Prop := ∃ x ∈ program, ∃ r ∈ x.2.hidden, q ∈ r.2.parts

end PhpInspect.Php
