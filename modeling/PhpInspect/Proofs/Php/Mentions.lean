import PhpInspect.Proofs.Php.Origin
import PhpInspect.Proofs.Tree.Preorder

/-! # What a program mentions

The functions and methods, the variables and the parameters of a program in the order of the source, apart from those
inside of what the analysis tree holds as a leaf. The nodes for them are those of the tree in pre-order, one for each.
-/

namespace PhpInspect.Php

open Outline Outlining

def Phrase.isDeclaration : {c : Category} → Phrase c → Bool
  | _, .function _ _ _ _ | _, .method _ _ _ _ => true
  | _, _ => false

/-- A function or method. -/
abbrev Declaration := { q : AnyPhrase // q.2.isDeclaration = true }

theorem Declaration.exists_outline (source : Source) (d : Declaration) :
    ∃ o, d.val.2.outline source .plain = [o] ∧ o.label.kind.isUnit = true := by
  obtain ⟨⟨c, p⟩, hp⟩ := d
  cases p with
  | function | method => exact ⟨_, rfl, rfl⟩
  | _ => cases hp

theorem Declaration.filter_outline (source : Source) (d : Declaration) {kind : Kind} (hkind : kind.isUnit = false) :
    (d.val.2.outline source .plain).filter (fun o => o.label.kind == kind) = [] := by
  obtain ⟨o, ho, hunit⟩ := d.exists_outline source
  have hne : o.label.kind ≠ kind := by
    rintro rfl
    rw [hunit] at hkind
    cases hkind
  simp [ho, hne]

/-- A function or method, the name of a variable, or the name of a parameter. -/
inductive Mention where
  | unit (declaration : Declaration)
  | var (name : Span)
  | param (name : Span)

namespace Mention

def unit? : Mention → Option Declaration
  | .unit declaration => some declaration
  | _ => none

def var? : Mention → Option Span
  | .var name => some name
  | _ => none

def param? : Mention → Option Span
  | .param name => some name
  | _ => none

end Mention

namespace Piece

variable {α : Type}

/-- The names in a piece that is no part. -/
def names : Piece α → List Mention
  | .var name => [.var name]
  | .param name => [.param name]
  | .captures clause => clause.items.map fun capture => .var capture.name
  | _ => []

/-- What a piece mentions. A part that is not shown mentions nothing. -/
def mentions : Piece (List Mention) → List Mention
  | .shown _ part | .classed _ part => part
  | piece => piece.names

end Piece

/-- A function or method mentions itself. -/
def AnyPhrase.unit (x : AnyPhrase) : List Mention := if h : x.2.isDeclaration = true then [.unit ⟨x, h⟩] else []

variable {c : Category}

/-- What a phrase mentions. Selectors, computed names, values of parameters and of static variables, and constructs
that no rule looks into mention nothing. -/
def Phrase.mentions (p : Phrase c) : List Mention :=
  p.fold fun x pieces => AnyPhrase.unit x ++ pieces.flatMap fun piece => (piece.map Prod.snd).mentions

/-- What a phrase mentions itself, apart from its parts. -/
def Phrase.ownMentions (p : Phrase c) : List Mention := AnyPhrase.unit ⟨c, p⟩ ++ p.pieces.flatMap Piece.names

def Piece.mentioned (piece : Piece AnyPhrase) : List Mention := (piece.map fun q => q.2.mentions).mentions

theorem Phrase.mentions_eq (p : Phrase c) :
    p.mentions = AnyPhrase.unit ⟨c, p⟩ ++ p.pieces.flatMap Piece.mentioned := by
  rw [mentions, fold_eq]
  simp only [List.flatMap_map, Piece.map_map]
  rfl

namespace Phrase

variable {c : Category}

/-- The functions and methods of a phrase in the order of the source. -/
def declarations (p : Phrase c) : List Declaration := p.mentions.filterMap Mention.unit?

/-- The places where a phrase names a variable outright. -/
def variableNames (p : Phrase c) : List Span := p.mentions.filterMap Mention.var?

/-- The names of the parameters in a phrase. -/
def parameterNames (p : Phrase c) : List Span := p.mentions.filterMap Mention.param?

end Phrase

/-! ### Nothing lost and nothing invented -/

theorem Hidden.mono {program whole : List AnyPhrase} {q : AnyPhrase} (h : Hidden program q) (hsub : program ⊆ whole) :
    Hidden whole q := by
  obtain ⟨x, hx, hidden⟩ := h
  exact ⟨x, hsub hx, hidden⟩

theorem Piece.names_subset_mentioned (piece : Piece AnyPhrase) : piece.names ⊆ piece.mentioned := by
  cases piece with
  | shown | classed | hidden => exact List.nil_subset _
  | var | param | captures => exact List.Subset.refl _

namespace Phrase

variable (p : Phrase c)

theorem mentioned_subset {piece : Piece AnyPhrase} (h : piece ∈ p.pieces) : piece.mentioned ⊆ p.mentions := by
  intro m hm
  rw [mentions_eq]
  exact List.mem_append_right _ (List.mem_flatMap.2 ⟨piece, h, hm⟩)

/-- A phrase lists what its parts mention themselves, unless they are hidden. -/
theorem ownMentions_subset : ∀ q ∈ p.parts, q.2.ownMentions ⊆ p.mentions ∨ Hidden p.parts q := by
  refine induction (motive := fun p => ∀ q ∈ p.parts, q.2.ownMentions ⊆ p.mentions ∨ Hidden p.parts q) ?_ p
  intro c p ih q hq
  rcases mem_parts.1 hq with rfl | ⟨r, hr, hq⟩
  · rw [mentions_eq, ownMentions]
    refine .inl (List.append_subset.2 ⟨List.subset_append_left _ _, List.subset_append_of_subset_right _ ?_⟩)
    exact fun m hm =>
      have ⟨piece, hpiece, hm⟩ := List.mem_flatMap.1 hm
      List.mem_flatMap.2 ⟨piece, hpiece, piece.names_subset_mentioned hm⟩
  · obtain ⟨piece, hpiece, hpart⟩ := List.mem_filterMap.1 hr
    have hlisted := (ih r hr q hq).imp_right (·.mono (parts_subset_of_mem_immediate hr))
    have hsub := p.mentioned_subset hpiece
    cases piece with
    | shown | classed =>
      cases hpart
      exact hlisted.imp_left (List.Subset.trans · hsub)
    | hidden =>
      cases hpart
      exact .inr ⟨_, p.self_mem_parts, r, List.mem_filterMap.2 ⟨_, hpiece, rfl⟩, hq⟩
    | var | param | captures => cases hpart

/-- Whatever a phrase lists is mentioned by a part of it. -/
theorem exists_of_mem_mentions : ∀ m ∈ p.mentions, ∃ q ∈ p.parts, m ∈ q.2.ownMentions := by
  refine induction (motive := fun p => ∀ m ∈ p.mentions, ∃ q ∈ p.parts, m ∈ q.2.ownMentions) ?_ p
  intro c p ih m hm
  rw [mentions_eq] at hm
  have hown : ∀ h : m ∈ p.ownMentions, ∃ q ∈ p.parts, m ∈ q.2.ownMentions := fun h => ⟨_, p.self_mem_parts, h⟩
  rcases List.mem_append.1 hm with hm | hm
  · exact hown (List.mem_append_left _ hm)
  · obtain ⟨piece, hpiece, hm⟩ := List.mem_flatMap.1 hm
    cases piece with
    | shown _ part | classed _ part =>
      have hpart := mem_immediate_of_mem_pieces hpiece rfl
      obtain ⟨q, hq, hm⟩ := ih part hpart m hm
      exact ⟨q, parts_subset_of_mem_immediate hpart hq, hm⟩
    | hidden => cases hm
    | var | param | captures => exact hown (List.mem_append_right _ (List.mem_flatMap.2 ⟨_, hpiece, hm⟩))

theorem unit_mem_ownMentions (d : Declaration) : .unit d ∈ d.val.2.ownMentions := by
  refine List.mem_append_left _ ?_
  rw [AnyPhrase.unit, dif_pos d.2]
  exact List.mem_singleton.2 rfl

theorem eq_of_unit_mem_ownMentions {p : Phrase c} {d : Declaration} (h : .unit d ∈ p.ownMentions) : d.val = ⟨c, p⟩ := by
  rcases List.mem_append.1 h with h | h
  · rw [AnyPhrase.unit] at h
    split_ifs at h
    · cases List.mem_singleton.1 h
      rfl
    · cases h
  · obtain ⟨piece, -, h⟩ := List.mem_flatMap.1 h
    cases piece <;> simp [Piece.names] at h

/-- The functions and methods of a program are listed, unless they are hidden. -/
theorem mem_declarations {d : Declaration} (hd : d.val ∈ p.parts) : d ∈ p.declarations ∨ Hidden p.parts d.val := by
  refine (p.ownMentions_subset d.val hd).imp_left fun hown => ?_
  exact List.mem_filterMap.2 ⟨.unit d, hown (unit_mem_ownMentions d), rfl⟩

theorem mem_parts_of_mem_declarations {d : Declaration} (hd : d ∈ p.declarations) : d.val ∈ p.parts := by
  obtain ⟨m, hm, hunit⟩ := List.mem_filterMap.1 hd
  cases m <;> cases hunit
  obtain ⟨q, hq, hown⟩ := p.exists_of_mem_mentions _ hm
  rwa [eq_of_unit_mem_ownMentions hown]

/-- The variables that the phrases of a program name are listed, unless the phrases are hidden. -/
theorem mem_variableNames {q : AnyPhrase} {s : Span} (hq : q ∈ p.parts) (hs : .var s ∈ q.2.ownMentions) :
    s ∈ p.variableNames ∨ Hidden p.parts q := by
  refine (p.ownMentions_subset q hq).imp_left fun hown => ?_
  exact List.mem_filterMap.2 ⟨.var s, hown hs, rfl⟩

theorem exists_of_mem_variableNames {s : Span} (hs : s ∈ p.variableNames) :
    ∃ q ∈ p.parts, .var s ∈ q.2.ownMentions := by
  obtain ⟨m, hm, hvar⟩ := List.mem_filterMap.1 hs
  cases m <;> cases hvar
  exact p.exists_of_mem_mentions _ hm

end Phrase

/-! ### The nodes of what is mentioned -/

/-- The kinds of the nodes for what a program mentions. -/
def isMentionKind (kind : Kind) : Bool := kind.isUnit || kind == .var || kind == .variableDeclarator

def Mention.outlines (source : Source) : Mention → List Outline
  | .unit declaration => declaration.val.2.outline source .plain
  | .var name => [variableNode source name]
  | .param name => [declaratorNode source name]

/-- The nodes for what is mentioned in some outlines are those of some mentions, in this order. -/
def Mentioned (source : Source) (os : List Outline) (ms : List Mention) : Prop :=
  (preorderAll os).filter (fun o => isMentionKind o.label.kind) = ms.flatMap (Mention.outlines source)

namespace Mentioned

variable {source : Source} {os os' cs : List Outline} {ms ms' : List Mention} {label : Label} {d : Declaration}

theorem nil : Mentioned source [] [] := rfl

theorem append (h : Mentioned source os ms) (h' : Mentioned source os' ms') :
    Mentioned source (os ++ os') (ms ++ ms') := by
  rw [Mentioned, preorderAll_append, List.filter_append, h, h', List.flatMap_append]

theorem flatMap {α : Type} {f : α → List Outline} {g : α → List Mention} {xs : List α}
    (h : ∀ x ∈ xs, Mentioned source (f x) (g x)) : Mentioned source (xs.flatMap f) (xs.flatMap g) := by
  induction xs with
  | nil => exact .nil
  | cons x xs ih => exact (h x List.mem_cons_self).append (ih fun y hy => h y (List.mem_cons_of_mem _ hy))

/-- A node of another kind adds nothing. -/
theorem node (h : Mentioned source cs ms) (hkind : isMentionKind label.kind = false := by rfl) :
    Mentioned source [.node label cs] ms := by
  rw [Mentioned, preorderAll_node, List.filter_cons_of_neg (by simp [Outline.label, hkind])]
  exact h

theorem unit (h : Mentioned source cs ms) (hunit : d.val.2.outline source .plain = [.node label cs])
    (hkind : isMentionKind label.kind = true) : Mentioned source [.node label cs] (.unit d :: ms) := by
  rw [Mentioned, preorderAll_node, List.filter_cons_of_pos (by simp [Outline.label, hkind]), h,
    List.flatMap_cons, Mention.outlines, hunit, List.singleton_append]

theorem var (name : Span) : Mentioned source [variableNode source name] [.var name] := rfl

theorem param (name : Span) : Mentioned source [declaratorNode source name] [.param name] := rfl

theorem capture (capture : Capture) : Mentioned source [captureNode source capture] [.var capture.name] := by
  rw [captureNode]
  split_ifs
  · exact (Mentioned.var capture.name).node
  · exact .var capture.name

theorem piece {piece : Piece AnyPhrase} {role : Role}
    (h : ∀ q, piece.part? = some q → ∀ role, Mentioned source (q.2.outline source role) q.2.mentions) :
    Mentioned source (piece.outlined source role) piece.mentioned := by
  cases piece with
  | shown passing part => exact h part rfl _
  | classed span members => exact (h members rfl .plain).node
  | hidden part => exact .nil
  | var name => exact .var name
  | param name => exact .param name
  | captures clause =>
    refine node ?_
    change Mentioned source (clause.items.map _) (clause.items.map _)
    rw [List.map_eq_flatMap, List.map_eq_flatMap]
    exact flatMap fun item _ => .capture item

end Mentioned

/-- Of the phrases, functions and methods have the nodes for what is mentioned. -/
theorem Phrase.isDeclaration_eq (source : Source) (role : Role) (p : Phrase c) :
    p.isDeclaration = (p.label? source role).any fun label => isMentionKind label.kind := by
  cases p with
  | array | throwing | block => cases role <;> rfl
  | exprStmt s e => cases e <;> rfl
  | _ => rfl

theorem Phrase.outline_of_isDeclaration {source : Source} {role : Role} {p : Phrase c} (h : p.isDeclaration = true) :
    p.outline source .plain = p.outline source role := by
  cases p with
  | function | method => rfl
  | _ => cases h

/-- The analysis tree has a node for each thing that a phrase mentions, in the same order. -/
theorem Phrase.mentioned (source : Source) (p : Phrase c) :
    ∀ role, Mentioned source (p.outline source role) p.mentions := by
  refine induction (motive := fun p => ∀ role, Mentioned source (p.outline source role) p.mentions) ?_ p
  intro c p ih role
  have hinside : Mentioned source (p.inside source role) (p.pieces.flatMap Piece.mentioned) :=
    .flatMap fun piece hpiece => .piece fun q hq => ih q (mem_immediate_of_mem_pieces hpiece hq)
  have houtline := p.outline_eq source role
  have hdeclaration := p.isDeclaration_eq source role
  rw [houtline, mentions_eq, AnyPhrase.unit]
  cases hlabel : p.label? source role with
  | none =>
    rw [hlabel] at hdeclaration
    rw [dif_neg (by rw [hdeclaration]; exact Bool.false_ne_true)]
    exact hinside
  | some label =>
    rw [hlabel] at hdeclaration houtline
    split_ifs with hunit
    · rw [← outline_of_isDeclaration hunit] at houtline
      exact hinside.unit houtline (hdeclaration.symm.trans hunit)
    · exact hinside.node (hdeclaration.symm.trans (Bool.eq_false_iff.2 hunit))

end PhpInspect.Php
