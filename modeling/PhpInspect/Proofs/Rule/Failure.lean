import PhpInspect.Proofs.Rule.Totality

/-! # When rules fail

A tree that was not made from a program may hold anything anywhere. Even then a rule never misses a parent, and the only
children that it misses are the body of the function that it looks at and the lists of parameters of the frames that it
visits.
-/

namespace PhpInspect

variable {t : Tree} {i f u : Nat} {kind : Kind} {e : RuleError} {o : Options}

/-- A node has no child of a kind. -/
def Tree.lacks (t : Tree) (kind : Kind) (i : Nat) : Bool := (t.children i).all fun c => t.kind c != kind

theorem Tree.requireChild_eq_error_iff : t.requireChild i kind = .error e ↔
    t.lacks kind i = true ∧ e = .missingChild (t.kind i) kind (t.beginLine i) := by
  have hlacks : t.lacks kind i = true ↔ t.firstChildOfKind i kind = none := by
    rw [lacks, firstChildOfKind, List.find?_eq_none, List.all_eq_true]
    simp
  rw [hlacks, requireChild]
  cases t.firstChildOfKind i kind <;> simp [eq_comm]

/-! ### Undefined variables -/

namespace UndefinedVariable

/-- A frame can be looked at unless it has no list of parameters. -/
theorem undefinedIn_eq_error_iff (h : t.WellFormed) (settings : Settings) : undefinedIn t settings f = .error e ↔
    t.lacks .formalParameters f = true ∧ e = .missingChild (t.kind f) .formalParameters (t.beginLine f) := by
  rw [← Tree.requireChild_eq_error_iff]
  cases hlist : t.requireChild f .formalParameters with
  | error e' =>
    simp [undefinedIn, parameterNames, hlist, bind, Except.bind]
  | ok list =>
    obtain ⟨undefined, hundefined⟩ := succeeds_undefinedIn h settings ⟨list, hlist⟩
    simp [hundefined]

theorem report_eq_error_iff (h : t.WellFormed) (settings : Settings) : report t settings u = .error e ↔
    ∃ frame, (frames t settings.analyzeClosures u).find? (t.lacks .formalParameters) = some frame ∧
      e = .missingChild (t.kind frame) .formalParameters (t.beginLine frame) := by
  rw [← mapM_eq_error_iff fun f _ e => undefinedIn_eq_error_iff h settings, report]
  cases (frames t settings.analyzeClosures u).mapM (undefinedIn t settings) <;>
    simp [bind, Except.bind, pure, Except.pure]

end UndefinedVariable

/-! ### Rules -/

namespace Rule

theorem apply_undefinedVariable_eq_error_iff (h : t.WellFormed) :
    (undefinedVariable.apply t u o).value = .error e ↔ t.isAbstract u = false ∧ ∃ frame,
      (UndefinedVariable.frames t (UndefinedVariable.Settings.ofOptions o).value.analyzeClosures u).find?
          (t.lacks .formalParameters) = some frame ∧
        e = .missingChild (t.kind frame) .formalParameters (t.beginLine frame) := by
  rw [Rule.apply.eq_def, ← UndefinedVariable.report_eq_error_iff h]
  cases t.isAbstract u with
  | true => simp
  | false =>
    rw [and_iff_right rfl]
    exact Iff.rfl

theorem apply_unreachableCode_eq_error_iff (h : t.WellFormed) :
    (unreachableCode.apply t u o).value = .error e ↔
      t.isAbstract u = false ∧ t.lacks .scope u = true ∧ e = .missingChild (t.kind u) .scope (t.beginLine u) := by
  rw [Rule.apply.eq_def, ← Tree.requireChild_eq_error_iff]
  cases t.isAbstract u with
  | true => simp
  | false =>
    cases hscope : t.requireChild u .scope with
    | error e' => simp
    | ok scope =>
      obtain ⟨violations, hok⟩ := UnreachableCode.succeeds_report h (Finality.ofOptions o).value u
      simp [hok]

/-- On every node of every tree, a rule fails exactly if the node is not abstract and lacks its body, or a frame that is
visited from it lacks a list of parameters, and then the error names the first node that lacks something. The frames are
visited depth first. -/
theorem failures_of_built (t : Tree) (h : t.Built) (u : Nat) (o : Options) :
    (∀ (r : Rule) (kind : Kind) (line : Nat), (r.apply t u o).value ≠ .error (.missingParent kind line)) ∧
    (∀ e, (unreachableCode.apply t u o).value = .error e ↔
      t.isAbstract u = false ∧ t.lacks .scope u = true ∧ e = .missingChild (t.kind u) .scope (t.beginLine u)) ∧
    (∀ e, (undefinedVariable.apply t u o).value = .error e ↔ t.isAbstract u = false ∧ ∃ frame,
      (UndefinedVariable.frames t (UndefinedVariable.Settings.ofOptions o).value.analyzeClosures u).find?
          (t.lacks .formalParameters) = some frame ∧
        e = .missingChild (t.kind frame) .formalParameters (t.beginLine frame)) ∧
    ∀ nested owner, UndefinedVariable.frames t nested owner = owner ::
      if nested then (UndefinedVariable.ownedClosures t owner).flatMap (UndefinedVariable.frames t nested) else [] := by
  have hwf := h.wellFormed
  refine ⟨fun r kind line hparent => ?_, fun e => apply_unreachableCode_eq_error_iff hwf,
    fun e => apply_undefinedVariable_eq_error_iff hwf, UndefinedVariable.frames_eq hwf⟩
  cases r with
  | undefinedVariable =>
    obtain ⟨-, frame, -, hmissing⟩ := (apply_undefinedVariable_eq_error_iff hwf).1 hparent
    cases hmissing
  | unreachableCode =>
    obtain ⟨-, -, hmissing⟩ := (apply_unreachableCode_eq_error_iff hwf).1 hparent
    cases hmissing

end Rule

/-- A function with parameters but no body, and in it a closure that lacks both, below a second root. -/
def misshapenTree : Tree :=
  ((((Tree.empty 1 9).push ⟨.program, "", 1, 9, false⟩ 0).push ⟨.function, "f", 2, 8, false⟩ 1).push
    ⟨.formalParameters, "", 2, 2, false⟩ 2).push ⟨.closure, "function", 3, 7, false⟩ 2

theorem failures_of_misshapenTree :
    misshapenTree.Built ∧
    (Rule.undefinedVariable.apply misshapenTree 2 (.empty "")).value =
      .error (.missingChild .closure .formalParameters 3) ∧
    (Rule.unreachableCode.apply misshapenTree 2 (.empty "")).value = .error (.missingChild .function .scope 2) := by
  have hbuilt : misshapenTree.Built :=
    .push _ (.push _ (.push _ (.push _ (.empty 1 9) (by decide)) (by decide)) (by decide)) (by decide)
  have hfailures := Rule.failures_of_built misshapenTree hbuilt 2 (.empty "")
  exact ⟨hbuilt, (hfailures.2.2.1 _).2 ⟨by decide, 4, by decide +kernel, by decide⟩,
    (hfailures.2.1 _).2 ⟨by decide, by decide, by decide⟩⟩

end PhpInspect
