import PhpInspect.Proofs.Php.Layout
import PhpInspect.Proofs.Rule.Totality
import PhpInspect.Proofs.Rule.Unreachable

/-! # Dead ends found by lines

By lines, a terminator is the last statement of its block if it ends on the last line of the block or on the line above
that line. On the last line a closing brace is expected. With one statement to a line, this finds every dead end that
the places of the statements show, but for one form: the body of a branch that is not in braces has no such line, so
that a terminator with one line of dead code behind it passes for the last statement.
-/

namespace PhpInspect

open Php Outline Outlining

variable {t : Tree} {i u p block : Nat} {source : Source} {program : List AnyPhrase}

namespace Php

variable {role : Role} {body : Phrase .body}

/-- The body of a branch or loop stands in braces. -/
def Phrase.isBraced : Phrase .body → Bool
  | .stmtBody (.blockStmt _) => true
  | _ => false

theorem outline_of_not_isBraced {statement : Stmt} (h : (Phrase.stmtBody statement).isBraced = false) :
    statement.outline source .body = statement.outline source .plain := by
  cases statement with
  | blockStmt => cases h
  | _ => rfl

theorem outline_body_eq (body : Phrase .body) (role : Role) :
    body.outline source role = body.outline source .plain := by
  cases body <;> rfl

theorem kind_of_shows_body (h : Shows t source role body block) : t.kind block = .scopeStatement := by
  obtain ⟨o, ho, hholds⟩ := h
  cases body <;> cases ho <;> exact congrArg Label.kind hholds.label_eq

theorem ne_body_of_label? {s : Span} {statements : Phrase (.list .stmt)} {label : Label}
    (h : (Phrase.block s statements).label? source role = some label) : role ≠ .body := by
  rintro rfl
  cases h

/-- A block has its statements below its node, unless its node is that of a body. -/
theorem Shows.exists_block {s : Span} {statements : Phrase (.list .stmt)}
    (h : Shows t source role (.block s statements) block) (hrole : role ≠ .body) :
    ∃ label : Label, (label.beginLine, label.endLine) = source.lines.linesOf s ∧
      t.Holds block (.node label (statements.outline source .plain)) := by
  obtain ⟨o, ho, hholds⟩ := h
  cases role with
  | body => exact absurd rfl hrole
  | _ =>
    cases ho
    rw [← List.append_nil (statements.outline source .plain)]
    exact ⟨_, rfl, hholds⟩

/-- The node of a body in braces shows the block. -/
theorem Shows.exists_of_isBraced (h : Shows t source role body block) (hbraced : body.isBraced = true) :
    ∃ s statements, ⟨.block, .block s statements⟩ ∈ body.parts ∧ Shows t source .plain (.block s statements) block := by
  obtain ⟨o, ho, hholds⟩ := h
  match body with
  | .stmtBody (.blockStmt (.block s statements)) =>
    have hblock : (Phrase.block s statements).outline source .plain =
        (Phrase.stmtBody (.blockStmt (.block s statements))).outline source role := by
      change [spanning source .scopeStatement "" s (statements.outline source .plain ++ [])] =
        [spanning source .scopeStatement "" s (statements.outline source .plain ++ [] ++ [] ++ [])]
      simp only [List.append_nil]
    exact ⟨s, statements, .tail _ (.tail _ (.head _)), o, hblock.trans ho, hholds⟩

end Php

namespace UnreachableCode

/-! ### What the tests on lines find -/

/-- The kinds of the parts of an `if` statement that have a body. -/
def isBranch (kind : Kind) : Bool := kind == .ifStatement || kind == .elseIfStatement || kind == .elseStatement

/-- The kinds of the parts of a `try` statement that have a body. -/
def isAttempt (kind : Kind) : Bool := kind == .tryStatement || kind == .catchStatement || kind == .finallyStatement

theorem endsWith_iff : endsWith t block i = true ↔
    t.endLine i = t.endLine block ∨ t.endLine i + 1 = t.endLine block := by
  rw [endsWith, Bool.or_eq_true, beq_iff_eq, beq_iff_eq]

theorem exists_of_anyOf {tests : List (Except RuleError Bool)} (h : anyOf tests = .ok true) : .ok true ∈ tests := by
  induction tests with
  | nil => cases h
  | cons test tests ih =>
    rw [anyOf] at h
    obtain ⟨holds, rfl, h⟩ := exists_of_bind_eq_ok h
    cases holds with
    | true => exact List.mem_cons_self
    | false => exact List.mem_cons_of_mem _ (ih h)

theorem exists_of_above {kind : Kind} {test : Nat → Except RuleError Bool}
    (h : above t kind block test = .ok true) :
    t.kind block = kind ∧ ∃ p, t.parent block = some p ∧ test p = .ok true := by
  rw [above] at h
  split_ifs at h with hkind
  · obtain ⟨p, hp, htest⟩ := exists_of_bind_eq_ok h
    exact ⟨beq_iff_eq.1 hkind, p, Tree.parentOf_eq_ok_iff.1 hp, htest⟩
  · cases h

/-- The ways in which a statement ends its block by lines. -/
theorem endsItsBlock_cases (hp : t.parent i = some block) (h : endsItsBlock t u i = .ok true) :
    (t.kind block = .scope ∧ (endsWith t u i = true ∨ endsWith t block i = true)) ∨
    (t.kind block = .switchLabel ∧ t.endLine i = t.endLine block) ∨
    (t.kind block = .scopeStatement ∧ endsWith t block i = true ∧
      ∃ p, t.parent block = some p ∧ (isBranch (t.kind p) = true ∨ isAttempt (t.kind p) = true)) := by
  have hparent : t.parentOf i = .ok block := Tree.parentOf_eq_ok_iff.2 hp
  rw [endsItsBlock, hparent] at h
  have htest := exists_of_anyOf h
  simp only [List.mem_cons, List.not_mem_nil, or_false] at htest
  rcases htest with htest | htest | htest | htest | htest | htest | htest
  · have hunit := Except.ok.inj htest
    rw [eq_comm, endsUnit, Bool.and_eq_true, beq_iff_eq] at hunit
    exact .inl ⟨hunit.1, .inl hunit.2⟩
  · obtain ⟨hkind, p, hp, hbranch⟩ := exists_of_above htest.symm
    have hbranch : (isBranch (t.kind p) && endsWith t block i) = true := Except.ok.inj hbranch
    rw [Bool.and_eq_true] at hbranch
    exact .inr (.inr ⟨hkind, hbranch.2, p, hp, .inl hbranch.1⟩)
  · obtain ⟨hkind, p, -, hcase⟩ := exists_of_above htest.symm
    have hcase := Except.ok.inj hcase
    rw [Bool.and_eq_true, beq_iff_eq, beq_iff_eq] at hcase
    exact .inr (.inl ⟨hkind, hcase.2⟩)
  · obtain ⟨hkind, p, hp, hattempt⟩ := exists_of_above htest.symm
    split_ifs at hattempt with hother hfinal
    · cases hattempt
    · cases hattempt
    · simp only [Bool.or_eq_true, bne_iff_ne, Bool.not_eq_true', not_or, not_not, Bool.not_eq_false] at hother
      exact .inr (.inr ⟨hkind, hother.2, p, hp, .inr (by rw [hother.1]; rfl)⟩)
  · obtain ⟨hkind, p, hp, hhandler⟩ := exists_of_above htest.symm
    have hhandler := Except.ok.inj hhandler
    rw [Bool.and_eq_true, beq_iff_eq] at hhandler
    exact .inr (.inr ⟨hkind, hhandler.2, p, hp, .inr (by rw [hhandler.1]; rfl)⟩)
  · obtain ⟨hkind, p, hp, hfinal⟩ := exists_of_above htest.symm
    split_ifs at hfinal with hother
    · cases hfinal
    · simp only [Bool.or_eq_true, bne_iff_ne, Bool.not_eq_true', not_or, not_not, Bool.not_eq_false] at hother
      exact .inr (.inr ⟨hkind, hother.2, p, hp, .inr (by rw [hother.1]; rfl)⟩)
  · obtain ⟨hkind, p, -, hclosure⟩ := exists_of_above htest.symm
    have hclosure := Except.ok.inj hclosure
    rw [Bool.and_eq_true] at hclosure
    exact .inl ⟨hkind, .inr hclosure.2⟩

/-- By lines, a statement ends the body of a branch if its last line is the last but one. -/
theorem endsItsBlock_of_branch (hp : t.parent i = some block) (hblock : t.kind block = .scopeStatement)
    (hbranch : t.parent block = some p) (hkind : isBranch (t.kind p) = true)
    (hline : t.endLine i + 1 = t.endLine block) : endsItsBlock t u i = .ok true := by
  have hparent : t.parentOf i = .ok block := Tree.parentOf_eq_ok_iff.2 hp
  have hparent' : t.parentOf block = .ok p := Tree.parentOf_eq_ok_iff.2 hbranch
  have hunit : endsUnit t u block i = false := by rw [endsUnit, hblock]; rfl
  have htest : endsBranch t block i = .ok (isBranch (t.kind p) && endsWith t block i) := by
    rw [endsBranch, above, hblock, hparent']
    rfl
  rw [hkind, endsWith_iff.2 (.inr hline)] at htest
  rw [endsItsBlock, hparent]
  change anyOf (pure (endsUnit t u block i) :: endsBranch t block i :: _) = .ok true
  rw [hunit, htest]
  rfl

/-! ### Terminators with other statements behind them -/

section Followed

variable {role : Role} {s outer : Span} {statements : Phrase (.list .stmt)} (hwf : t.WellFormed)
  (hp : t.parent i = some block) (hi : isTerminator (t.kind i) = true) (hlast : t.isLastChild i = false)

include hwf hp hi hlast

/-- Among nodes that stand below each other, a terminator with another behind it ends above the last line. -/
theorem endLine_lt_of_stacked {lines : LineTable} {spans : List Span} {front ls : List Label} {n : Nat}
    (hlabels : (t.children block).map (fun c => (t.node c).toLabel) = front ++ ls)
    (hfront : ∀ l ∈ front, isTerminator l.kind = false) (hstacked : Stacked lines spans ls)
    (hn : ∀ s ∈ spans, (lines.linesOf s).2 ≤ n) : t.endLine i < n := by
  have hpairwise : (front ++ ls).Pairwise fun a b => isTerminator a.kind = true → a.endLine < n := by
    have hvacuous : ∀ a ∈ front, isTerminator a.kind = true → a.endLine < n := by
      intro a ha hterminator
      rw [hfront a ha] at hterminator
      cases hterminator
    refine List.pairwise_append.2 ⟨?_, ?_, fun a ha b _ => hvacuous a ha⟩
    · exact List.pairwise_of_forall_mem_list fun a ha b _ => hvacuous a ha
    · refine hstacked.pairwise.imp_of_mem fun {a b} _ hb hab _ => ?_
      obtain ⟨hle, s, hs, -, hend⟩ := hstacked.placed b hb
      have := hn s hs
      omega
  obtain ⟨before, behind, hchildren⟩ := hwf.exists_split hp
  rw [hwf.isLastChild_eq hchildren] at hlast
  -- The pairs of nodes say nothing of a last child, so the next one is needed.
  cases behind with
  | nil => cases hlast
  | cons j behind =>
    rw [← hlabels, hchildren, List.pairwise_map, List.pairwise_append] at hpairwise
    exact (List.pairwise_cons.1 hpairwise.2.1).1 j List.mem_cons_self hi

variable (hcomplete : Complete program) (hspaced : Spaced source.lines program)

include hcomplete hspaced

theorem endLine_lt_of_block (hmem : ⟨.block, .block s statements⟩ ∈ program)
    (h : Shows t source role (.block s statements) block) (hrole : role ≠ .body) :
    t.endLine i + 1 < t.endLine block := by
  obtain ⟨label, hlines, hholds⟩ := h.exists_block hrole
  have hend : t.endLine block = (source.lines.linesOf s).2 :=
    (congrArg Label.endLine hholds.label_eq).trans (congrArg Prod.snd hlines)
  have hlabels : (t.children block).map (fun c => (t.node c).toLabel) =
      [] ++ (statements.outline source .plain).map Outline.label := hholds.map_label
  have hparts := Phrase.parts_subset_trans (.head _) (hcomplete _ hmem)
  have hstacked := statements.stacked hspaced hparts (.inr rfl)
  have hbound : t.endLine i < (source.lines.linesOf s).2 - 1 := by
    refine endLine_lt_of_stacked hwf hp hi hlast hlabels nofun hstacked fun a ha => ?_
    obtain ⟨last, hlast⟩ := Option.isSome_iff_exists.1 (List.getLast?_isSome.2 (List.ne_nil_of_mem ha))
    have hle := le_getLast? (hspaced.isChain hparts) ha hlast
    have hlt : (source.lines.linesOf last).2 < (source.lines.linesOf s).2 := hspaced.closed _ hmem last hlast
    omega
  omega

/-- A case ends where its last statement ends. -/
theorem endLine_lt_of_case {condition : Phrase (.option .expr)}
    (hmem : ⟨.switchCase, .switchCase s condition statements⟩ ∈ program)
    (h : Shows t source role (.switchCase s condition statements) block) : t.endLine i < t.endLine block := by
  obtain ⟨o, ho, hholds⟩ := h
  cases ho
  have hend : t.endLine block = (sequenceLines source s statements.spans).2 := congrArg Label.endLine hholds.label_eq
  have hlabels : (t.children block).map (fun c => (t.node c).toLabel) =
      (condition.outline source .plain).map Outline.label ++ (statements.outline source .plain).map Outline.label := by
    rw [hholds.map_label, ← List.map_append, ← List.append_nil (statements.outline source .plain)]
    rfl
  have hparts := Phrase.parts_subset_trans (.tail _ (.head _)) (hcomplete _ hmem)
  have hstacked := statements.stacked hspaced hparts (.inr rfl)
  rw [hend]
  refine endLine_lt_of_stacked hwf hp hi hlast hlabels ?_ hstacked fun a ha =>
    le_sequenceLines (hspaced.isChain hparts) ha s
  intro l hl
  obtain ⟨o, ho, rfl⟩ := List.mem_map.1 hl
  have hexpression : o.label.kind.isExpression = true := condition.test_of_mem_outline rfl ho
  cases hkind : o.label.kind <;> rw [hkind] at hexpression <;> cases hexpression <;> rfl

/-- A body that is not in braces ends where its last statement ends. -/
theorem endLine_lt_of_body {body : Phrase .body} (hbraced : body.isBraced = false) (hmem : ⟨.body, body⟩ ∈ program)
    (h : Shows t source role body block) : t.endLine i < t.endLine block := by
  obtain ⟨o, ho, hholds⟩ := h
  cases body with
  | stmtBody statement =>
    cases ho
    have hend : t.endLine block = (source.lines.linesOf statement.span).2 := congrArg Label.endLine hholds.label_eq
    have hlabels : (t.children block).map (fun c => (t.node c).toLabel) =
        [] ++ (statement.outline source .plain).map Outline.label := by
      rw [hholds.map_label, ← outline_of_not_isBraced hbraced, List.nil_append,
        ← List.append_nil (statement.outline source .body)]
      rfl
    have hstacked := statement.stacked hspaced (Phrase.parts_subset_trans (.head _) (hcomplete _ hmem)) (.inl rfl)
    rw [hend]
    refine endLine_lt_of_stacked hwf hp hi hlast hlabels nofun hstacked fun a ha => ?_
    rw [List.mem_singleton.1 ha]
  | colonBody outer statements =>
    cases ho
    have hend : t.endLine block = (sequenceLines source outer statements.spans).2 :=
      congrArg Label.endLine hholds.label_eq
    have hlabels : (t.children block).map (fun c => (t.node c).toLabel) =
        [] ++ (statements.outline source .plain).map Outline.label := by
      rw [hholds.map_label, List.nil_append, ← List.append_nil (statements.outline source .plain)]
      rfl
    have hparts := Phrase.parts_subset_trans (.head _) (hcomplete _ hmem)
    have hstacked := statements.stacked hspaced hparts (.inr rfl)
    rw [hend]
    exact endLine_lt_of_stacked hwf hp hi hlast hlabels nofun hstacked fun a ha =>
      le_sequenceLines (hspaced.isChain hparts) ha outer

end Followed

/-! ### Blocks and the lines around them -/

section Program

variable (hwf : t.WellFormed) (hdepicts : Depicts t source program) (hcomplete : Complete program)
  (hspaced : Spaced source.lines program)

theorem shows_of_mem_outline {body : Phrase .block} {o : Outline} (ho : o ∈ body.outline source .plain)
    (h : t.Holds block o) : Shows t source .plain body block := by
  cases body with
  | block s statements =>
    rw [List.mem_singleton.1 ho] at h
    exact ⟨_, rfl, h⟩

include hwf hdepicts hcomplete in
/-- The bodies of `try`, `catch` and `finally` are in braces. -/
theorem exists_block_of_isAttempt (hp : t.parent block = some p) (hblock : t.kind block = .scopeStatement)
    (hkind : isAttempt (t.kind p) = true) :
    ∃ body : Phrase .block, ⟨.block, body⟩ ∈ program ∧ Shows t source .plain body block := by
  -- The other children of these nodes are of other kinds.
  have hother : ∀ {o : Outline} {kind : Kind}, t.Holds block o → o.label.kind = kind → kind = .scopeStatement := by
    rintro o kind hholds rfl
    rw [← hholds.label_eq]
    exact hblock
  rw [isAttempt, Bool.or_eq_true, Bool.or_eq_true, beq_iff_eq, beq_iff_eq, beq_iff_eq] at hkind
  rcases hkind with (hkind | hkind) | hkind
  · obtain ⟨q, hq, ⟨s, body, handlers, final, rfl⟩, role, hlabel, hshows⟩ := hdepicts p _ hkind nofun rfl
    obtain ⟨piece, hpiece, o, ho, hholds⟩ := hshows.exists_piece hlabel hwf hp
    change piece ∈ [.shown (.as .plain) ⟨_, body⟩, .shown (.as .plain) ⟨_, handlers⟩, .shown (.as .plain) ⟨_, final⟩]
      at hpiece
    simp only [List.mem_cons, List.not_mem_nil, or_false] at hpiece
    rcases hpiece with rfl | rfl | rfl
    · exact ⟨body, hcomplete.mem hq (.head _), shows_of_mem_outline ho hholds⟩
    · cases hother hholds (beq_iff_eq.1 (handlers.test_of_mem_outline rfl ho))
    · cases hother hholds (beq_iff_eq.1 (final.test_of_mem_outline rfl ho))
  · obtain ⟨q, hq, ⟨s, binder, body, rfl⟩, role, hlabel, hshows⟩ := hdepicts p _ hkind nofun rfl
    obtain ⟨piece, hpiece, o, ho, hholds⟩ := hshows.exists_piece hlabel hwf hp
    cases binder with
    | none =>
      cases List.mem_singleton.1 hpiece
      exact ⟨body, hcomplete.mem hq (.head _), shows_of_mem_outline ho hholds⟩
    | some name =>
      rcases List.mem_cons.1 hpiece with rfl | hpiece
      · cases hother hholds (congrArg (·.label.kind) (List.mem_singleton.1 ho))
      · cases List.mem_singleton.1 hpiece
        exact ⟨body, hcomplete.mem hq (.head _), shows_of_mem_outline ho hholds⟩
  · obtain ⟨q, hq, ⟨s, body, rfl⟩, role, hlabel, hshows⟩ := hdepicts p _ hkind nofun rfl
    obtain ⟨piece, hpiece, o, ho, hholds⟩ := hshows.exists_piece hlabel hwf hp
    cases List.mem_singleton.1 hpiece
    exact ⟨body, hcomplete.mem hq (.head _), shows_of_mem_outline ho hholds⟩

include hdepicts in
theorem exists_region_of_isUnit (hu : (t.kind u).isUnit = true) : ∃ q ∈ program, q.1.isRegion = true ∧
    t.endLine u = (source.lines.linesOf q.2.span).2 ∧ ∃ role, Shows t source role q.2 u := by
  cases hkind : t.kind u <;> rw [hkind] at hu <;> cases hu
  all_goals
    obtain ⟨q, hq, ⟨s, id, params, body, rfl⟩, role, hlabel, hshows⟩ := hdepicts u _ hkind nofun rfl
    exact ⟨_, hq, rfl, congrArg Label.endLine (Option.some.inj hlabel).symm, role, hshows⟩

include hwf hdepicts hspaced in
/-- The body of a function, method or closure ends no later than the function or method around it. -/
theorem endLine_le_unit (hu : (t.kind u).isUnit = true) (habove : u ∈ t.ancestors block)
    (hblock : t.kind block = .scope) : t.endLine block ≤ t.endLine u := by
  obtain ⟨unit, hunit, hregion, hend, role, hshows⟩ := exists_region_of_isUnit hdepicts hu
  obtain ⟨q, hq, ⟨s, statements, rfl⟩, role, hlabel, hshows⟩ := hshows.exists_below hwf habove hblock rfl
  obtain ⟨label, hlines, hholds⟩ := hshows.exists_block (ne_body_of_label? hlabel)
  have hend' : t.endLine block = (source.lines.linesOf s).2 :=
    (congrArg Label.endLine hholds.label_eq).trans (congrArg Prod.snd hlines)
  rw [hend, hend']
  exact (LineTable.linesOf_of_inside (hspaced.nested unit hunit hregion _ hq rfl)).2

end Program

/-! ### Dead ends that the lines hide -/

/-- A node ends on the last line but one of the body of a branch that is not in braces. -/
def NearOpenEnd (t : Tree) (source : Source) (program : List AnyPhrase) (i : Nat) : Prop :=
  ∃ block branch, t.parent i = some block ∧ t.parent block = some branch ∧ isBranch (t.kind branch) = true ∧
    (∃ body : Phrase .body, body.isBraced = false ∧ ⟨.body, body⟩ ∈ program ∧ Shows t source .plain body block) ∧
    t.endLine i + 1 = t.endLine block

/-- With one statement to a line, a dead end passes for the last statement only near the end of an open branch. -/
theorem endsItsBlock_iff_of_isDead (hwf : t.WellFormed) (hdepicts : Depicts t source program)
    (hcomplete : Complete program) (hspaced : Spaced source.lines program) (hdead : isDead t u i = true) :
    endsItsBlock t u i = .ok true ↔ NearOpenEnd t source program i := by
  rw [isDead, Bool.and_eq_true, Bool.and_eq_true, beq_iff_eq, Bool.not_eq_true'] at hdead
  obtain ⟨⟨hi, hu⟩, hlast⟩ := hdead
  constructor
  · intro hends
    obtain ⟨block, hp⟩ := hwf.exists_parent_of_kind (kind_ne_program_of_isTerminator hi)
    have hblock : ∀ {s : Span} {statements : Phrase (.list .stmt)} {role : Role},
        ⟨.block, .block s statements⟩ ∈ program → Shows t source role (.block s statements) block → role ≠ .body →
        t.endLine i + 1 < t.endLine block :=
      fun hmem hshows hrole => endLine_lt_of_block hwf hp hi hlast hcomplete hspaced hmem hshows hrole
    rcases endsItsBlock_cases hp hends with ⟨hkind, hline⟩ | ⟨hkind, hline⟩ | ⟨hkind, hline, branch, hbranch, hside⟩
    · -- A closure ends inside of its unit, so that the lines of the unit give no more than those of the block.
      obtain ⟨habove, hunit⟩ := mem_ancestors_of_enclosingUnit hu
      have habove : u ∈ t.ancestors block := hwf.mem_ancestors_of_parent hunit habove hp (by rw [hkind]; rfl)
      have hle := endLine_le_unit hwf hdepicts hspaced hunit habove hkind
      obtain ⟨q, hq, ⟨s, statements, rfl⟩, role, hlabel, hshows⟩ := hdepicts block _ hkind nofun rfl
      have hlt := hblock hq hshows (ne_body_of_label? hlabel)
      rw [endsWith_iff, endsWith_iff] at hline
      omega
    · obtain ⟨q, hq, ⟨s, condition, statements, rfl⟩, role, -, hshows⟩ := hdepicts block _ hkind nofun rfl
      have hlt := endLine_lt_of_case hwf hp hi hlast hcomplete hspaced hq hshows
      omega
    · rw [endsWith_iff] at hline
      rcases hside with hside | hside
      · obtain ⟨q, hq, hform, role, hlabel, hshows⟩ := hdepicts block _ hkind nofun rfl
        rcases hform with ⟨s, statements, rfl⟩ | ⟨body, rfl⟩
        · have hlt := hblock hq hshows (ne_body_of_label? hlabel)
          omega
        · cases hbraced : body.isBraced with
          | true =>
            obtain ⟨s, statements, hmem, hshows⟩ := hshows.exists_of_isBraced hbraced
            have hlt := hblock (hcomplete _ hq hmem) hshows nofun
            omega
          | false =>
            have hlt := endLine_lt_of_body hwf hp hi hlast hcomplete hspaced hbraced hq hshows
            rw [Shows, outline_body_eq] at hshows
            exact ⟨block, branch, hp, hbranch, hside, ⟨body, hbraced, hq, hshows⟩, by omega⟩
      · obtain ⟨body, hmem, hshows⟩ := exists_block_of_isAttempt hwf hdepicts hcomplete hbranch hkind hside
        cases body with
        | block s statements =>
          have hlt := hblock hmem hshows nofun
          omega
  · rintro ⟨block, branch, hp, hbranch, hkind, ⟨body, -, -, hshows⟩, hline⟩
    exact endsItsBlock_of_branch hp (kind_of_shows_body hshows) hbranch hkind hline

def endsByLines (t : Tree) (u i : Nat) : Bool :=
  match endsItsBlock t u i with
  | .ok ends => ends
  | .error _ => false

theorem report_lines (h : t.WellFormed) (u : Nat) : report t .lines u =
    .ok (((terminators t u).filter fun i => !endsByLines t u i).map (Rule.unreachableCode.violationAt t)) := by
  have hfound : (terminators t u).filterM (fun i => do return !(← isFinal t .lines u i)) =
      .ok ((terminators t u).filter fun i => !endsByLines t u i) := by
    refine filterM_eq_filter fun i hi => ?_
    obtain ⟨hterminator, hunit⟩ := (mem_terminators h).1 hi
    obtain ⟨ends, hends⟩ := succeeds_endsItsBlock h hterminator hunit
    change (do return !(← endsItsBlock t u i)) = _
    rw [endsByLines, hends]
    rfl
  rw [report, hfound]
  rfl

theorem violationAt_injective (t : Tree) : (Rule.unreachableCode.violationAt t).Injective :=
  fun _ _ h => congrArg Violation.node h

theorem not_mem_reported_lines_iff (h : t.WellFormed) (hi : i ∈ terminators t u) :
    Rule.unreachableCode.violationAt t i ∉
        ((terminators t u).filter fun j => !endsByLines t u j).map (Rule.unreachableCode.violationAt t) ↔
      endsItsBlock t u i = .ok true := by
  obtain ⟨hterminator, hunit⟩ := (mem_terminators h).1 hi
  obtain ⟨ends, hends⟩ := succeeds_endsItsBlock h hterminator hunit
  rw [List.mem_map_of_injective (violationAt_injective t), List.mem_filter, endsByLines, hends]
  cases ends <;> simp [hi]

/-- With one statement to a line, the dead ends of a function or method that are not found by lines are those with one
line of dead code behind them in the body of a branch that is not in braces. -/
theorem missed_iff_nearOpenEnd (source : Source) (statements : List Stmt)
    (h : Spaced source.lines (Phrase.ofList statements).parts) {o o' : Options}
    (ho : (Finality.ofOptions o).value = .structural) (ho' : (Finality.ofOptions o').value = .lines) {u : Nat}
    (hu : u ∈ (treeOf source statements).units) :
    ∃ vs ws, (Rule.unreachableCode.apply (treeOf source statements) u o).value = .ok vs ∧
      (Rule.unreachableCode.apply (treeOf source statements) u o').value = .ok ws ∧
      ∀ v ∈ vs, v ∉ ws ↔
        NearOpenEnd (treeOf source statements) source (Phrase.ofList statements).parts v.node := by
  have hwf := wellFormed_treeOf source statements
  have hgrammar := grammatical_treeOf source statements
  have hlines := report_lines hwf u
  rw [← ho', ← apply_eq_report hwf hgrammar hu] at hlines
  refine ⟨_, _, apply_structural hwf hgrammar hu ho, hlines, fun v hv => ?_⟩
  obtain ⟨i, hi, rfl⟩ := List.mem_map.1 hv
  have hdead := List.of_mem_filter hi
  have hiff := endsItsBlock_iff_of_isDead hwf (depicts_treeOf source statements)
    (Phrase.ofList statements).complete_parts h hdead
  rw [isDead, Bool.and_eq_true, Bool.and_eq_true, beq_iff_eq] at hdead
  exact (not_mem_reported_lines_iff hwf ((mem_terminators hwf).2 hdead.1)).trans hiff

def byLines : Options := (Options.empty "UnreachableCode").set "finality" (.string "lines")

/-- A dead end in a branch without braces, and one in braces. -/
def twoBranches : String :=
  "<?php
function f($x) {
    if ($x):
        return 1;
        echo 2;
    endif;
    if ($x) {
        return 3;
        echo 4;
    }
}
"

theorem missed_iff_nearOpenEnd_twoBranches :
    Spaced (Source.ofText twoBranches).lines (Phrase.ofList (Program.ofText twoBranches).statements).parts ∧
    (Finality.ofOptions (.empty "")).value = .structural ∧ (Finality.ofOptions byLines).value = .lines ∧
    2 ∈ (treeOf (Source.ofText twoBranches) (Program.ofText twoBranches).statements).units ∧
    ∃ vs ws, (Rule.unreachableCode.apply (treeOf (Source.ofText twoBranches) (Program.ofText twoBranches).statements) 2
        (.empty "")).value = .ok vs ∧
      (Rule.unreachableCode.apply (treeOf (Source.ofText twoBranches) (Program.ofText twoBranches).statements) 2
        byLines).value = .ok ws ∧
      ∀ v ∈ vs, v ∉ ws ↔ NearOpenEnd (treeOf (Source.ofText twoBranches) (Program.ofText twoBranches).statements)
        (Source.ofText twoBranches) (Phrase.ofList (Program.ofText twoBranches).statements).parts v.node := by
  have hspaced : Spaced (Source.ofText twoBranches).lines
      (Phrase.ofList (Program.ofText twoBranches).statements).parts := by decide +kernel
  have hstructural : (Finality.ofOptions (.empty "")).value = .structural := by decide +kernel
  have hlines : (Finality.ofOptions byLines).value = .lines := by decide +kernel
  have hunit : 2 ∈ (treeOf (Source.ofText twoBranches) (Program.ofText twoBranches).statements).units := by
    decide +kernel
  exact ⟨hspaced, hstructural, hlines, hunit, missed_iff_nearOpenEnd _ _ hspaced hstructural hlines hunit⟩

/-- One line of dead code in a branch without braces. -/
def colonBranch : String :=
  "<?php
function f($x) {
    if ($x):
        return 1;
        echo 2;
    endif;
}
"

/-- Although every statement has its own line and the branch closes below its last statement, the dead end on line 4 is
not found by lines. -/
theorem lines_miss_colonBranch :
    Spaced (Source.ofText colonBranch).lines (Phrase.ofList (Program.ofText colonBranch).statements).parts ∧
    (treeOf (Source.ofText colonBranch) (Program.ofText colonBranch).statements).kind 7 = .ifStatement ∧
    (treeOf (Source.ofText colonBranch) (Program.ofText colonBranch).statements).kind 12 = .echoStatement ∧
    (treeOf (Source.ofText colonBranch) (Program.ofText colonBranch).statements).endLine 12 <
      (treeOf (Source.ofText colonBranch) (Program.ofText colonBranch).statements).endLine 7 ∧
    (Finality.ofOptions (.empty "")).value = .structural ∧ (Finality.ofOptions byLines).value = .lines ∧
    reported (treeOf (Source.ofText colonBranch) (Program.ofText colonBranch).statements) (.empty "") 2 =
      some [⟨.unreachableCode, 10, 4, 4, "return"⟩] ∧
    reported (treeOf (Source.ofText colonBranch) (Program.ofText colonBranch).statements) byLines 2 = some [] := by
  decide +kernel

end UnreachableCode

end PhpInspect
