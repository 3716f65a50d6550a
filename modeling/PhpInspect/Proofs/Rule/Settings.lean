import PhpInspect.Proofs.Rule.Failure
import PhpInspect.Proofs.Rule.Undefined

/-! # What the settings leave out

Both settings of the rule about undefined variables only take violations away. Ignoring the outputs of `preg_match`
takes away those at such outputs, in all frames alike: a name that is left out at its first appearance is not reported
at a later one. Not looking into closures takes away what other frames than that of the function own.
-/

namespace PhpInspect.UndefinedVariable

variable {t : Tree} {settings settings' : Settings} {ignore nested : Bool} {f u v : Nat}

/-! ### Outputs of `preg_match` -/

/-- A variable is the third argument of a call of `preg_match` or `preg_match_all`, whatever the namespace and the case
of the letters in which the call names it. -/
def IsOutput (t : Tree) (v : Nat) : Prop :=
  ∃ arguments call, t.parent v = some arguments ∧ t.kind arguments = .arguments ∧
    t.parent arguments = some call ∧ t.kind call = .functionPostfix ∧
    (baseName (t.image call)).toLower ∈ ["preg_match", "preg_match_all"] ∧ t.child? arguments 2 = some v

theorem isPregMatchOutput_eq_true_iff : isPregMatchOutput t v = .ok true ↔ IsOutput t v := by
  constructor
  · intro h
    obtain ⟨arguments, harguments, h⟩ := exists_of_bind_eq_ok h
    split_ifs at h with hlist
    · cases h
    obtain ⟨call, hcall, h⟩ := exists_of_bind_eq_ok h
    split_ifs at h with hkind hname
    · cases h
    · cases h
    have hthird := Except.ok.inj h
    simp only [Bool.and_eq_true, decide_eq_true_iff, beq_iff_eq] at hthird
    rw [Bool.not_eq_true', Bool.not_eq_false, List.contains_iff_mem] at hname
    exact ⟨arguments, call, Tree.parentOf_eq_ok_iff.1 harguments, by simpa using hlist,
      Tree.parentOf_eq_ok_iff.1 hcall, by simpa using hkind, hname, hthird.2⟩
  · rintro ⟨arguments, call, harguments, hlist, hcall, hkind, hname, hthird⟩
    have hlength : 3 ≤ (t.children arguments).length := (List.getElem?_eq_some_iff.1 hthird).1
    have hname : (baseName (t.image call)).toLower ∈ pregFunctions := hname
    rw [isPregMatchOutput, Tree.parentOf_eq_ok_iff.2 harguments]
    change (if _ then _ else t.parentOf arguments >>= _) = _
    rw [Tree.parentOf_eq_ok_iff.2 hcall]
    simp [bind, Except.bind, pure, Except.pure, hlist, hkind, hname, hlength, hthird]

instance (t : Tree) (v : Nat) : Decidable (IsOutput t v) := decidable_of_iff _ isPregMatchOutput_eq_true_iff

theorem isPregMatchOutput_eq_false_iff (h : t.WellFormed) (hv : t.kind v ≠ .program) :
    isPregMatchOutput t v = .ok false ↔ ¬IsOutput t v := by
  obtain ⟨output, houtput⟩ := succeeds_isPregMatchOutput h hv
  rw [← isPregMatchOutput_eq_true_iff, houtput]
  cases output <;> simp

/-! ### One frame -/

theorem Undefined.congr (h : settings.ignorePregMatch = settings'.ignorePregMatch)
    (hv : Undefined t settings f v) : Undefined t settings' f v :=
  { hv with output := fun hignore => hv.output (h.trans hignore) }

theorem Undefined.kind_ne_program (hv : Undefined t settings f v) : t.kind v ≠ .program := by
  have hlocal := hv.isLocal
  intro hprogram
  simp [Tree.isLocalVariable, hprogram] at hlocal

/-- Outputs that are ignored are the only difference, for what comes first is the same. -/
theorem undefined_ignoring_iff (h : t.WellFormed) :
    Undefined t ⟨true, nested⟩ f v ↔ Undefined t ⟨false, nested⟩ f v ∧ ¬IsOutput t v := by
  constructor
  · intro hv
    exact ⟨{ hv with output := nofun }, (isPregMatchOutput_eq_false_iff h hv.kind_ne_program).1 (hv.output rfl)⟩
  · rintro ⟨hv, houtput⟩
    exact { hv with output := fun _ => (isPregMatchOutput_eq_false_iff h hv.kind_ne_program).2 houtput }

/-- The variables that are undefined in a frame in pre-order. -/
def undefinedOf (t : Tree) (settings : Settings) (f : Nat) : List Nat :=
  (t.descendants Tree.root).filter (Undefined t settings f)

theorem owningScope_of_mem_undefinedOf (hv : v ∈ undefinedOf t settings f) : owningScope t v = some f :=
  (of_decide_eq_true (List.mem_filter.1 hv).2).owner

theorem undefinedOf_congr (h : settings.ignorePregMatch = settings'.ignorePregMatch) :
    undefinedOf t settings = undefinedOf t settings' := by
  ext1 f
  exact List.filter_congr fun v _ => decide_eq_decide.2 ⟨.congr h, .congr h.symm⟩

theorem undefinedOf_ignoring (h : t.WellFormed) (nested : Bool) (f : Nat) :
    undefinedOf t ⟨true, nested⟩ f = (undefinedOf t ⟨false, nested⟩ f).filter fun v => ¬IsOutput t v := by
  rw [undefinedOf, undefinedOf, List.filter_filter]
  refine List.filter_congr fun v _ => ?_
  simp [undefined_ignoring_iff h, and_comm]

/-! ### All frames -/

/-- The undefined variables of a function or method with those of the closures that are looked into. -/
def undefinedFrom (t : Tree) (settings : Settings) (u : Nat) : List Nat :=
  (frames t settings.analyzeClosures u).flatMap (undefinedOf t settings)

theorem undefinedFrom_ignoring (h : t.WellFormed) (nested : Bool) (u : Nat) :
    undefinedFrom t ⟨true, nested⟩ u = (undefinedFrom t ⟨false, nested⟩ u).filter fun v => ¬IsOutput t v := by
  rw [undefinedFrom, undefinedFrom, List.filter_flatMap]
  exact List.flatMap_congr fun f _ => undefinedOf_ignoring h nested f

/-- What closures add to the report comes behind it and belongs to other frames. -/
theorem undefinedFrom_nested (h : t.WellFormed) (ignore : Bool) (u : Nat) :
    ∃ added, undefinedFrom t ⟨ignore, true⟩ u = undefinedFrom t ⟨ignore, false⟩ u ++ added ∧
      ∀ v ∈ added, owningScope t v ≠ some u := by
  have hnodup : (frames t true u).Nodup := nodup_framesWithin h t.size u
  rw [frames_eq h true u, List.nodup_cons] at hnodup
  refine ⟨((ownedClosures t u).flatMap (frames t true)).flatMap (undefinedOf t ⟨ignore, true⟩), ?_, ?_⟩
  · have hsame : undefinedOf t ⟨ignore, true⟩ = undefinedOf t ⟨ignore, false⟩ := undefinedOf_congr rfl
    simp only [undefinedFrom, frames_eq h _ u, hsame, List.flatMap_cons, if_true, Bool.false_eq_true, if_false,
      List.flatMap_nil, List.append_nil]
  · intro v hv howner
    obtain ⟨f, hf, hv⟩ := List.mem_flatMap.1 hv
    rw [owningScope_of_mem_undefinedOf hv] at howner
    cases howner
    exact hnodup.1 hf

theorem owningScope_of_mem_undefinedFrom (h : t.WellFormed) (hv : v ∈ undefinedFrom t ⟨ignore, false⟩ u) :
    owningScope t v = some u := by
  rw [undefinedFrom, frames_eq h] at hv
  obtain ⟨f, hf, hv⟩ := List.mem_flatMap.1 hv
  rw [owningScope_of_mem_undefinedOf hv, List.mem_singleton.1 hf]

theorem undefinedFrom_outer (h : t.WellFormed) (ignore : Bool) (u : Nat) :
    undefinedFrom t ⟨ignore, false⟩ u <+: undefinedFrom t ⟨ignore, true⟩ u ∧
    undefinedFrom t ⟨ignore, false⟩ u =
      (undefinedFrom t ⟨ignore, true⟩ u).filter fun v => owningScope t v = some u := by
  obtain ⟨added, hadded, howner⟩ := undefinedFrom_nested h ignore u
  rw [hadded]
  refine ⟨List.prefix_append _ _, ?_⟩
  have hkept : (undefinedFrom t ⟨ignore, false⟩ u).filter (fun v => owningScope t v = some u) =
      undefinedFrom t ⟨ignore, false⟩ u :=
    List.filter_eq_self.2 fun v hv => decide_eq_true (owningScope_of_mem_undefinedFrom h hv)
  have hdropped : added.filter (fun v => owningScope t v = some u) = [] :=
    List.filter_eq_nil_iff.2 fun v hv => by simpa using howner v hv
  rw [List.filter_append, hkept, hdropped, List.append_nil]

/-! ### The rule -/

theorem frames_subset (h : t.WellFormed) (nested : Bool) (u : Nat) : frames t nested u ⊆ frames t true u := by
  cases nested with
  | true => exact List.Subset.refl _
  | false =>
    rw [frames_eq h false u, frames_eq h true u]
    simp

/-- If all frames can be looked at, the rule succeeds with all settings. -/
theorem report_eq_undefinedFrom (h : t.WellFormed) (hnested : settings.analyzeClosures = true)
    (hok : Succeeds (report t settings u)) (settings' : Settings) :
    report t settings' u = .ok ((undefinedFrom t settings' u).map (Rule.undefinedVariable.violationAt t)) := by
  cases hreport : report t settings' u with
  | ok violations => exact congrArg Except.ok (report_eq_spec h hreport)
  | error e =>
    obtain ⟨frame, hframe, -⟩ := (report_eq_error_iff h settings').1 hreport
    have hmem : frame ∈ frames t settings.analyzeClosures u := by
      rw [hnested]
      exact frames_subset h _ u (List.mem_of_find?_eq_some hframe)
    have hlacks : t.lacks .formalParameters frame = true := List.find?_some hframe
    obtain ⟨first, hfirst⟩ := Option.isSome_iff_exists.1 (List.find?_isSome.2 ⟨frame, hmem, hlacks⟩)
    obtain ⟨violations, hviolations⟩ := hok
    have herror := (report_eq_error_iff h settings).2 ⟨first, hfirst, rfl⟩
    rw [hviolations] at herror
    cases herror

/-- If the rule succeeds on a node with its closures, it succeeds with all options. Ignoring outputs of `preg_match`
then leaves out the violations at such outputs. Leaving closures out gives the beginning of the report, which consists
of the violations that the node itself owns. -/
theorem settings_shrink_report (t : Tree) (h : t.Built) (u : Nat) (o : Options)
    (hnested : (Settings.ofOptions o).value.analyzeClosures = true)
    (hok : Succeeds (Rule.undefinedVariable.apply t u o).value) :
    ∃ result : Settings → List Violation,
      (∀ o, (Rule.undefinedVariable.apply t u o).value = .ok (result (Settings.ofOptions o).value)) ∧
      (∀ nested, result ⟨true, nested⟩ = (result ⟨false, nested⟩).filter fun v => ¬IsOutput t v.node) ∧
      ∀ ignore, result ⟨ignore, false⟩ <+: result ⟨ignore, true⟩ ∧
        result ⟨ignore, false⟩ = (result ⟨ignore, true⟩).filter fun v => owningScope t v.node = some u := by
  have hwf := h.wellFormed
  cases habstract : t.isAbstract u with
  | true =>
    -- Nothing is looked at.
    refine ⟨fun _ => [], fun o => ?_, fun _ => rfl, fun _ => ⟨List.prefix_rfl, rfl⟩⟩
    rw [Rule.apply.eq_def, habstract]
    rfl
  | false =>
    have happly : ∀ o, (Rule.undefinedVariable.apply t u o).value = report t (Settings.ofOptions o).value u := by
      intro o
      rw [Rule.apply.eq_def, habstract]
      rfl
    rw [happly] at hok
    refine ⟨fun settings => (undefinedFrom t settings u).map (Rule.undefinedVariable.violationAt t), fun o => ?_,
      fun nested => ?_, fun ignore => ?_⟩
    · rw [happly]
      exact report_eq_undefinedFrom hwf hnested hok _
    · rw [List.filter_map]
      exact congrArg (List.map _) (undefinedFrom_ignoring hwf nested u)
    · obtain ⟨hfront, hfilter⟩ := undefinedFrom_outer hwf ignore u
      refine ⟨hfront.map _, ?_⟩
      rw [List.filter_map]
      exact congrArg (List.map _) hfilter

/-- A function that has a variable filled by `preg_match` and a closure that reads one of the same name. -/
def matchedName : String :=
  "<?php function f($s) { preg_match($s, $s, $m); return function () { return $m; }; }"

def matchedNameTree : Tree := Php.treeOf (Source.ofText matchedName) (Php.Program.ofText matchedName).statements

def ignoringOutputs : Options := (Options.empty "UndefinedVariable").set "ignorePregMatch" (.boolean true)

def withoutClosures : Options := (Options.empty "UndefinedVariable").set "analyzeClosures" (.boolean false)

/-- With each of the settings one of the two variables is reported. -/
theorem settings_shrink_matchedName :
    (matchedNameTree.Built ∧ (Settings.ofOptions (.empty "")).value = ⟨false, true⟩ ∧
      (Rule.undefinedVariable.apply matchedNameTree 2 (.empty "")).value =
        .ok ([12, 18].map (Rule.undefinedVariable.violationAt matchedNameTree))) ∧
    (Rule.undefinedVariable.apply matchedNameTree 2 ignoringOutputs).value =
      .ok (([12, 18].map (Rule.undefinedVariable.violationAt matchedNameTree)).filter
        fun v => ¬IsOutput matchedNameTree v.node) ∧
    (Rule.undefinedVariable.apply matchedNameTree 2 withoutClosures).value =
      .ok (([12, 18].map (Rule.undefinedVariable.violationAt matchedNameTree)).filter
        fun v => owningScope matchedNameTree v.node = some 2) ∧
    IsOutput matchedNameTree 12 ∧ owningScope matchedNameTree 12 = some 2 := by
  have hbuilt : matchedNameTree.Built := Php.built_treeOf _ _
  have hrun : ((Settings.ofOptions (.empty "")).value = ⟨false, true⟩ ∧
      (Settings.ofOptions ignoringOutputs).value = ⟨true, true⟩ ∧
      (Settings.ofOptions withoutClosures).value = ⟨false, false⟩) ∧
      (Rule.undefinedVariable.apply matchedNameTree 2 (.empty "")).value =
        .ok ([12, 18].map (Rule.undefinedVariable.violationAt matchedNameTree)) ∧
      IsOutput matchedNameTree 12 ∧ owningScope matchedNameTree 12 = some 2 := by decide +kernel
  obtain ⟨⟨hdefault, hignoring, houter⟩, hreport, houtput⟩ := hrun
  obtain ⟨result, hresult, houtputs, hclosures⟩ :=
    settings_shrink_report matchedNameTree hbuilt 2 (.empty "") (by rw [hdefault]) ⟨_, hreport⟩
  have hall : result ⟨false, true⟩ = [12, 18].map (Rule.undefinedVariable.violationAt matchedNameTree) := by
    rw [← hdefault]
    exact Except.ok.inj ((hresult _).symm.trans hreport)
  refine ⟨⟨hbuilt, hdefault, hreport⟩, ?_, ?_, houtput⟩
  · rw [hresult, hignoring, houtputs true, hall]
  · rw [hresult, houter, (hclosures false).2, hall]

end PhpInspect.UndefinedVariable
