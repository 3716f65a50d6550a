import PhpInspect.Proofs.Rule.Failure
import PhpInspect.Proofs.Rule.LineFinality

/-! # Two ways to find the end of a block

In a tree that is laid out as code usually is, the end of most blocks can be read off the lines as well as off the
places of the statements: a terminator is the last statement of a body, a branch, a handler or a case exactly if it ends
on the line above the closing brace, or on the last line of the case.
-/

namespace PhpInspect

variable {t : Tree} {i u p block outer : Nat}

/-- In a chain of ranges, each below the one before it, a range ends above the end of the last. -/
theorem lt_getLast?_of_isChain {α : Type} {first final : α → Nat} {x z : α} {xs : List α}
    (h : (x :: xs).IsChain fun a b => final a < first b) (hle : ∀ a ∈ xs, first a ≤ final a)
    (hz : xs.getLast? = some z) : final x < final z := by
  induction xs generalizing x with
  | nil => cases hz
  | cons y ys ih =>
    obtain ⟨hxy, hchain⟩ := List.isChain_cons_cons.1 h
    have hy : final x < final y := Nat.lt_of_lt_of_le hxy (hle y List.mem_cons_self)
    cases ys with
    | nil =>
      cases hz
      exact hy
    | cons w ws =>
      rw [List.getLast?_cons_cons] at hz
      exact Nat.lt_trans hy (ih hchain (fun a ha => hle a (List.mem_cons_of_mem _ ha)) hz)

namespace UnreachableCode

/-! ### Layouts -/

/-- The kinds whose children are statements; a case has its condition before them. -/
def holdsStatements (kind : Kind) : Bool := kind == .scope || kind == .scopeStatement || kind == .switchLabel

/-- The lines of a function or method are laid out as usual. -/
structure LaidOut (t : Tree) (u : Nat) : Prop where
  /-- The lines of a node are among those of its parent. -/
  nested : ∀ i ∈ t.descendants u, t.beginLine i ≤ t.endLine i ∧
    ∀ p ∈ t.parent i, t.beginLine p ≤ t.beginLine i ∧ t.endLine i ≤ t.endLine p
  /-- A statement begins below the end of the one before it. -/
  apart : ∀ block ∈ t.descendants u, holdsStatements (t.kind block) = true →
    (t.children block).IsChain fun a b => t.endLine a < t.beginLine b
  /-- A block is closed on the line below its last statement. -/
  closed : ∀ block ∈ t.descendants u, t.kind block = .scope ∨ t.kind block = .scopeStatement →
    ∀ last ∈ (t.children block).getLast?, t.endLine block = t.endLine last + 1
  /-- A case ends with its last statement. -/
  labels : ∀ label ∈ t.descendants u, t.kind label = .switchLabel →
    ∀ last ∈ (t.children label).getLast?, t.endLine label = t.endLine last
  /-- The function or method ends with its body. -/
  body : ∀ scope ∈ t.children u, t.kind scope = .scope → t.endLine u = t.endLine scope

instance (t : Tree) (u : Nat) : Decidable (LaidOut t u) :=
  decidable_of_iff (_ ∧ _ ∧ _ ∧ _ ∧ _)
    ⟨fun ⟨h₁, h₂, h₃, h₄, h₅⟩ => ⟨h₁, h₂, h₃, h₄, h₅⟩, fun ⟨h₁, h₂, h₃, h₄, h₅⟩ => ⟨h₁, h₂, h₃, h₄, h₅⟩⟩

/-- A block with its parent is the body of the unit or of a closure, a branch or a handler, or a case. -/
def IsPlain (t : Tree) (u block outer : Nat) : Prop :=
  t.kind block = .scope ∧ (outer = u ∨ t.kind outer = .closure) ∨
  t.kind block = .scopeStatement ∧ (isBranch (t.kind outer) = true ∨ t.kind outer = .catchStatement) ∨
  t.kind block = .switchLabel ∧ t.kind outer = .switchStatement

instance (t : Tree) (u block outer : Nat) : Decidable (IsPlain t u block outer) :=
  inferInstanceAs (Decidable (_ ∧ _ ∨ _ ∧ _ ∨ _ ∧ _))

def InPlainBlock (t : Tree) (u i : Nat) : Prop :=
  ∃ block ∈ t.parent i, ∃ outer ∈ t.parent block, IsPlain t u block outer

instance (t : Tree) (u i : Nat) : Decidable (InPlainBlock t u i) :=
  inferInstanceAs (Decidable (∃ block ∈ t.parent i, ∃ outer ∈ t.parent block, IsPlain t u block outer))

theorem getLast?_of_isLastChild (h : t.WellFormed) (hp : t.parent i = some block) (hlast : t.isLastChild i = true) :
    (t.children block).getLast? = some i := by
  obtain ⟨before, behind, hchildren⟩ := h.exists_split hp
  rw [h.isLastChild_eq hchildren, List.isEmpty_iff] at hlast
  simp [hchildren, hlast]

section LaidOut

variable (h : t.WellFormed) (hlaid : LaidOut t u)

include h hlaid

theorem LaidOut.endLine_le (hi : u ∈ t.ancestors i) : t.endLine i ≤ t.endLine u := by
  induction i using h.upward with
  | orphan i hnone => simp [Tree.ancestors_of_parent_none hnone] at hi
  | step i p hp ih =>
    have hle := ((hlaid.nested i (h.mem_descendants.2 hi)).2 p hp).2
    rw [h.ancestors_of_parent hp, List.mem_cons] at hi
    rcases hi with rfl | hi
    · exact hle
    · exact Nat.le_trans hle (ih hi)

/-- A statement with another behind it ends above the end of the last one. -/
theorem LaidOut.exists_last (hblock : u ∈ t.ancestors block) (hkind : holdsStatements (t.kind block) = true)
    (hp : t.parent i = some block) (hlast : t.isLastChild i = false) :
    ∃ last, (t.children block).getLast? = some last ∧ t.endLine i < t.endLine last := by
  obtain ⟨before, behind, hchildren⟩ := h.exists_split hp
  have hchain := hlaid.apart block (h.mem_descendants.2 hblock) hkind
  rw [hchildren] at hchain
  have hle : ∀ c ∈ behind, t.beginLine c ≤ t.endLine c := by
    intro c hc
    have hparent : t.parent c = some block := by
      rw [← h.mem_children, hchildren]
      exact List.mem_append_right _ (List.mem_cons_of_mem _ hc)
    have habove : u ∈ t.ancestors c := by
      rw [h.ancestors_of_parent hparent]
      exact List.mem_cons_of_mem _ hblock
    exact (hlaid.nested c (h.mem_descendants.2 habove)).1
  rw [h.isLastChild_eq hchildren] at hlast
  cases behind with
  | nil => cases hlast
  | cons next behind =>
    have hend := List.getLast?_eq_some_getLast (List.cons_ne_nil next behind)
    refine ⟨_, ?_, lt_getLast?_of_isChain hchain.right_of_append hle hend⟩
    rw [hchildren, List.getLast?_append_cons, List.getLast?_cons_cons, hend]

/-- In braces, the last statement is the one that ends on the line above the closing brace. -/
theorem LaidOut.endLine_of_closed (hblock : u ∈ t.ancestors block)
    (hkind : t.kind block = .scope ∨ t.kind block = .scopeStatement) (hp : t.parent i = some block) :
    if t.isLastChild i then t.endLine i + 1 = t.endLine block else t.endLine i + 1 < t.endLine block := by
  have hclosed := hlaid.closed block (h.mem_descendants.2 hblock) hkind
  split_ifs with hlast
  · exact (hclosed i (getLast?_of_isLastChild h hp hlast)).symm
  · have hholds : holdsStatements (t.kind block) = true := by rcases hkind with hkind | hkind <;> rw [hkind] <;> rfl
    obtain ⟨last, hmem, hlt⟩ := hlaid.exists_last h hblock hholds hp (by simpa using hlast)
    have hend := hclosed last hmem
    omega

theorem LaidOut.endLine_of_label (hblock : u ∈ t.ancestors block) (hkind : t.kind block = .switchLabel)
    (hp : t.parent i = some block) :
    if t.isLastChild i then t.endLine i = t.endLine block else t.endLine i < t.endLine block := by
  have hopen := hlaid.labels block (h.mem_descendants.2 hblock) hkind
  split_ifs with hlast
  · exact (hopen i (getLast?_of_isLastChild h hp hlast)).symm
  · obtain ⟨last, hmem, hlt⟩ := hlaid.exists_last h hblock (by rw [hkind]; rfl) hp (by simpa using hlast)
    have hend := hopen last hmem
    omega

end LaidOut

/-! ### The tests that hold -/

theorem anyOf_of_mem {tests : List (Except RuleError Bool)} (hok : Succeeds (anyOf tests)) (h : .ok true ∈ tests) :
    anyOf tests = .ok true := by
  induction tests with
  | nil => cases h
  | cons test tests ih =>
    obtain ⟨result, hresult⟩ := hok
    rw [anyOf] at hresult ⊢
    obtain ⟨holds, rfl, hresult⟩ := exists_of_bind_eq_ok hresult
    cases holds with
    | true => rfl
    | false =>
      rcases List.mem_cons.1 h with h | h
      · cases h
      · exact ih ⟨result, hresult⟩ h

theorem above_of_parent {kind : Kind} (hkind : t.kind block = kind) (hp : t.parent block = some p)
    (test : Nat → Except RuleError Bool) : above t kind block test = test p := by
  rw [above, hkind, beq_self_eq_true, if_pos rfl, Tree.parentOf_eq_ok_iff.2 hp]
  rfl

/-- One of the tests on lines finds the last statement of a plain block. -/
theorem mem_tests_of_isLastChild (h : t.WellFormed) (hlaid : LaidOut t u) (habove : u ∈ t.ancestors block)
    (hp : t.parent i = some block) (houter : t.parent block = some outer) (hplain : IsPlain t u block outer)
    (hlast : t.isLastChild i = true) :
    .ok true ∈ [.ok (endsUnit t u block i), endsBranch t block i, endsCase t block i, endsTry t block i,
      endsCatch t block i, endsFinally t block i, endsClosure t block i] := by
  have hclosed : t.kind block = .scope ∨ t.kind block = .scopeStatement → endsWith t block i = true := by
    intro hkind
    have hend := hlaid.endLine_of_closed h habove hkind hp
    rw [if_pos hlast] at hend
    exact endsWith_iff.2 (.inr hend)
  rcases hplain with ⟨hkind, rfl | hclosure⟩ | ⟨hkind, hbranch | hcatch⟩ | ⟨hkind, hswitch⟩
  · have hbody : t.endLine outer = t.endLine block := hlaid.body block ((h.mem_children outer block).2 houter) hkind
    have hends := hclosed (.inl hkind)
    rw [endsWith_iff, ← hbody, ← endsWith_iff] at hends
    have htest : endsUnit t outer block i = true := by rw [endsUnit, hkind, hends]; rfl
    simp [htest]
  · have htest : endsClosure t block i = .ok true := by
      rw [endsClosure, above_of_parent hkind houter, hclosure, hclosed (.inl hkind)]
      rfl
    simp [htest]
  · have htest : endsBranch t block i = .ok (isBranch (t.kind outer) && endsWith t block i) :=
      above_of_parent hkind houter _
    rw [hbranch, hclosed (.inr hkind)] at htest
    simp [htest]
  · have htest : endsCatch t block i = .ok true := by
      rw [endsCatch, above_of_parent hkind houter, hcatch, hclosed (.inr hkind)]
      rfl
    simp [htest]
  · have hend := hlaid.endLine_of_label h habove hkind hp
    rw [if_pos hlast] at hend
    have htest : endsCase t block i = .ok true := by
      rw [endsCase, above_of_parent hkind houter, hswitch, beq_iff_eq.2 hend]
      rfl
    simp [htest]

/-- In a plain block, the lines tell the last statement from the others. -/
theorem endsItsBlock_eq_isLastChild (h : t.WellFormed) (hlaid : LaidOut t u) (hi : i ∈ terminators t u)
    (hplain : InPlainBlock t u i) : endsItsBlock t u i = .ok (t.isLastChild i) := by
  obtain ⟨hterminator, hunit⟩ := (mem_terminators h).1 hi
  obtain ⟨block, hp, outer, houter, hplain⟩ := hplain
  have hsucceeds := succeeds_endsItsBlock h hterminator hunit
  obtain ⟨habove, hkindu⟩ := mem_ancestors_of_enclosingUnit hunit
  have hblock : (t.kind block).isUnit = false := by
    rcases hplain with ⟨hkind, -⟩ | ⟨hkind, -⟩ | ⟨hkind, -⟩ <;> rw [hkind] <;> rfl
  replace habove : u ∈ t.ancestors block := h.mem_ancestors_of_parent hkindu habove hp hblock
  cases hlast : t.isLastChild i with
  | true =>
    have hmem := mem_tests_of_isLastChild h hlaid habove hp houter hplain hlast
    rw [endsItsBlock, Tree.parentOf_eq_ok_iff.2 hp] at hsucceeds ⊢
    exact anyOf_of_mem hsucceeds hmem
  | false =>
    obtain ⟨ends, hends⟩ := hsucceeds
    cases ends with
    | false => exact hends
    | true =>
      exfalso
      have hclosed := fun hkind => hlaid.endLine_of_closed h habove hkind hp
      simp only [hlast, Bool.false_eq_true, if_false] at hclosed
      rcases endsItsBlock_cases hp hends with ⟨hkind, hline⟩ | ⟨hkind, hline⟩ | ⟨hkind, hline, -⟩
      · -- The test on the lines of the unit is made for closures too, but these end inside of the unit.
        have hlt := hclosed (.inl hkind)
        have hle := hlaid.endLine_le h habove
        rw [endsWith_iff, endsWith_iff] at hline
        omega
      · have hlt := hlaid.endLine_of_label h habove hkind hp
        simp only [hlast, Bool.false_eq_true, if_false] at hlt
        omega
      · have hlt := hclosed (.inr hkind)
        rw [endsWith_iff] at hline
        omega

/-! ### The rule -/

/-- The rule reports a node of a unit. -/
def Reports (t : Tree) (o : Options) (u i : Nat) : Prop :=
  ∃ violations, (Rule.unreachableCode.apply t u o).value = .ok violations ∧
    Rule.unreachableCode.violationAt t i ∈ violations

theorem mem_report_iff {finality : Finality} {violations : List Violation}
    (hok : report t finality u = .ok violations) : Rule.unreachableCode.violationAt t i ∈ violations ↔
      i ∈ terminators t u ∧ isFinal t finality u i = .ok false := by
  obtain ⟨found, hfound, hok⟩ := exists_of_bind_eq_ok hok
  cases hok
  rw [List.mem_map_of_injective (violationAt_injective t), mem_of_filterM hfound, not_eq_ok_true]

theorem reports_iff (h : t.WellFormed) {o : Options} : Reports t o u i ↔
    (t.isAbstract u = false ∧ Succeeds (t.requireChild u .scope)) ∧ i ∈ terminators t u ∧
      isFinal t (Finality.ofOptions o).value u i = .ok false := by
  rw [Reports, Rule.apply.eq_def]
  cases t.isAbstract u with
  | true => simp
  | false =>
    cases hscope : t.requireChild u .scope with
    | error e => simp [Succeeds]
    | ok scope =>
      obtain ⟨violations, hok⟩ := succeeds_report h (Finality.ofOptions o).value u
      simp [Succeeds, hok, mem_report_iff hok]

/-- In a function or method that is laid out as usual, the rule fails alike in both modes, and it reports the same
terminators of bodies, branches, handlers and cases. -/
theorem modes_agree_on_plain_blocks (t : Tree) (h : t.Built) (u : Nat) (hlaid : LaidOut t u) {o o' : Options}
    (ho : (Finality.ofOptions o).value = .structural) (ho' : (Finality.ofOptions o').value = .lines) :
    (∀ e, (Rule.unreachableCode.apply t u o').value = .error e ↔ (Rule.unreachableCode.apply t u o).value = .error e) ∧
    ∀ i ∈ terminators t u, InPlainBlock t u i → (Reports t o' u i ↔ Reports t o u i) := by
  have hwf := h.wellFormed
  refine ⟨fun e => ?_, fun i hi hplain => ?_⟩
  · rw [Rule.apply_unreachableCode_eq_error_iff hwf, Rule.apply_unreachableCode_eq_error_iff hwf]
  · have hlines : isFinal t .lines u i = isFinal t .structural u i := endsItsBlock_eq_isLastChild hwf hlaid hi hplain
    rw [reports_iff hwf, reports_iff hwf, ho, ho', hlines]

/-- Dead ends in a case and in a closure, which the last statement of the function returns. -/
def usualLayout : String :=
  "<?php
function f($x) {
  switch ($x) {
    case 1:
      throw $x;
      echo 2;
  }
  return function () {
    return 3;
    echo 4;
  };
}
"

def usualLayoutTree : Tree := Php.treeOf (Source.ofText usualLayout) (Php.Program.ofText usualLayout).statements

theorem modes_agree_on_usualLayout :
    (usualLayoutTree.Built ∧ LaidOut usualLayoutTree 2 ∧ (Finality.ofOptions (.empty "")).value = .structural ∧
      (Finality.ofOptions byLines).value = .lines) ∧
    reported usualLayoutTree (.empty "") 2 =
      some [⟨.unreachableCode, 11, 5, 5, "throw"⟩, ⟨.unreachableCode, 19, 9, 9, "return"⟩] ∧
    ∀ i ∈ [11, 15, 19], i ∈ terminators usualLayoutTree 2 ∧ InPlainBlock usualLayoutTree 2 i ∧
      (Reports usualLayoutTree byLines 2 i ↔ Reports usualLayoutTree (.empty "") 2 i) := by
  have hbuilt : usualLayoutTree.Built := Php.built_treeOf _ _
  have hrun : LaidOut usualLayoutTree 2 ∧ (∀ i ∈ [11, 15, 19], i ∈ terminators usualLayoutTree 2 ∧
      InPlainBlock usualLayoutTree 2 i) ∧ reported usualLayoutTree (.empty "") 2 =
        some [⟨.unreachableCode, 11, 5, 5, "throw"⟩, ⟨.unreachableCode, 19, 9, 9, "return"⟩] := by decide +kernel
  obtain ⟨hlaid, hplain, hreported⟩ := hrun
  have hstructural : (Finality.ofOptions (.empty "")).value = .structural := by decide +kernel
  have hlines : (Finality.ofOptions byLines).value = .lines := by decide +kernel
  have hagree := modes_agree_on_plain_blocks usualLayoutTree hbuilt 2 hlaid hstructural hlines
  refine ⟨⟨hbuilt, hlaid, hstructural, hlines⟩, hreported, fun i hi => ?_⟩
  obtain ⟨hterminator, hblock⟩ := hplain i hi
  exact ⟨hterminator, hblock, hagree.2 i hterminator hblock⟩

end UnreachableCode

end PhpInspect
