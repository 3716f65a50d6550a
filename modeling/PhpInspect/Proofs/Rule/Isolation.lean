import PhpInspect.Proofs.Rule.Failure
import PhpInspect.Proofs.Tree.Alike

/-! # Frames are isolated

What a rule finds in a frame does not depend on the names of the variables of another frame. The names of a `use`
clause count for two frames: they are read in the frame around the closure, and bound in the closure.
-/

namespace PhpInspect

/-! ### Outcomes that agree on some items -/

section Outcomes

variable {ε α β : Type} {keep : α → Bool}

/-- Two computations fail alike, or their results agree on the items that are kept. -/
inductive AgreeOn (keep : α → Bool) : Except ε (List α) → Except ε (List α) → Prop where
  | error (e : ε) : AgreeOn keep (.error e) (.error e)
  | ok {xs ys : List α} (h : xs.filter keep = ys.filter keep) : AgreeOn keep (.ok xs) (.ok ys)

namespace AgreeOn

theorem refl (keep : α → Bool) (x : Except ε (List α)) : AgreeOn keep x x := by
  cases x with
  | error e => exact .error e
  | ok xs => exact .ok rfl

/-- Nothing is kept of the results of either. -/
theorem of_all_dropped {x y : Except ε (List α)} (herror : ∀ e, x = .error e ↔ y = .error e)
    (hx : ∀ xs, x = .ok xs → ∀ a ∈ xs, keep a = false) (hy : ∀ ys, y = .ok ys → ∀ a ∈ ys, keep a = false) :
    AgreeOn keep x y := by
  cases x with
  | error e =>
    rw [(herror e).1 rfl]
    exact .error e
  | ok xs =>
    cases y with
    | error e => cases (herror e).2 rfl
    | ok ys =>
      have hxs : xs.filter keep = [] := List.filter_eq_nil_iff.2 (by simpa using hx xs rfl)
      have hys : ys.filter keep = [] := List.filter_eq_nil_iff.2 (by simpa using hy ys rfl)
      exact .ok (hxs.trans hys.symm)

theorem append {x x' y y' : Except ε (List α)} (hx : AgreeOn keep x x') (hy : AgreeOn keep y y') :
    AgreeOn keep (do return (← x) ++ (← y)) (do return (← x') ++ (← y')) := by
  cases hx with
  | error e => exact .error e
  | ok hx =>
    cases hy with
    | error e => exact .error e
    | ok hy =>
      refine .ok ?_
      rw [List.filter_append, List.filter_append, hx, hy]

theorem flatten_mapM_cons {γ : Type} (f : γ → Except ε (List α)) (x : γ) (xs : List γ) :
    ((x :: xs).mapM f).map List.flatten = (do return (← f x) ++ (← (xs.mapM f).map List.flatten)) := by
  rw [List.mapM_cons]
  cases f x with
  | error e => rfl
  | ok ys => cases xs.mapM f <;> rfl

theorem flatten_mapM {γ : Type} {f f' : γ → Except ε (List α)} {xs : List γ}
    (h : ∀ x ∈ xs, AgreeOn keep (f x) (f' x)) :
    AgreeOn keep ((xs.mapM f).map List.flatten) ((xs.mapM f').map List.flatten) := by
  induction xs with
  | nil => exact .refl keep _
  | cons x xs ih =>
    rw [flatten_mapM_cons, flatten_mapM_cons]
    exact (h x List.mem_cons_self).append (ih fun y hy => h y (List.mem_cons_of_mem _ hy))

/-- Results that agree on the items that are kept, renamed in ways that agree on these items. -/
theorem map {keep' : β → Bool} {g g' : α → β} {x x' : Except ε (List α)} (h : AgreeOn keep x x')
    (hkeep : ∀ a, keep' (g a) = keep a) (hkeep' : ∀ a, keep' (g' a) = keep a)
    (hg : ∀ a, keep a = true → g a = g' a) :
    AgreeOn keep' (x.map (List.map g)) (x'.map (List.map g')) := by
  cases h with
  | error e => exact .error e
  | @ok xs ys h =>
    refine .ok ?_
    have hxs : (xs.map g).filter keep' = (xs.filter keep).map g := by
      simp only [List.filter_map, Function.comp_def, hkeep]
    have hys : (ys.map g').filter keep' = (ys.filter keep).map g' := by
      simp only [List.filter_map, Function.comp_def, hkeep']
    rw [hxs, hys, h]
    exact List.map_congr_left fun a ha => hg a (List.mem_filter.1 ha).2

end AgreeOn

end Outcomes

variable {t t' : Tree} {c f i u v : Nat}

namespace UndefinedVariable

/-! ### Frames of trees that are alike -/

section Alike

variable (ha : t.Alike t')

include ha

theorem nearestFrame_alike (inUse : Bool) (above : List Nat) :
    nearestFrame t' inUse above = nearestFrame t inUse above := by
  induction above generalizing inUse with
  | nil => rfl
  | cons a rest ih => simp only [nearestFrame, ha.kind, ih]

theorem owningScope_alike : owningScope t' = owningScope t := by
  funext i
  rw [owningScope, owningScope, ha.ancestors, nearestFrame_alike ha]

theorem framesWithin_alike (nested : Bool) (depth owner : Nat) :
    framesWithin t' nested depth owner = framesWithin t nested depth owner := by
  induction depth generalizing owner with
  | zero => rfl
  | succ depth ih =>
    have hbelow : framesWithin t' nested depth = framesWithin t nested depth := funext ih
    simp only [framesWithin, ownedClosures, ha.descendantsOfKind, owningScope_alike ha, hbelow]

theorem frames_alike : frames t' = frames t := by
  funext nested owner
  rw [frames, frames, ha.size, framesWithin_alike ha]

theorem isElementWriteWithin_alike (steps index : Nat) :
    isElementWriteWithin t' steps index = isElementWriteWithin t steps index := by
  induction steps generalizing index with
  | zero => rfl
  | succ steps ih => simp only [isElementWriteWithin, ha.parentOf, ha.kind, ha.isFirstChild, ih]

theorem isDefinition_alike : isDefinition t' = isDefinition t := by
  funext v
  simp only [isDefinition, isElementWrite, ha.size, ha.parent, ha.parentOf, ha.kind, ha.isFirstChild,
    isElementWriteWithin_alike ha]

/-- The name that is compared is that of a call. -/
theorem isPregMatchOutput_alike (himage : ∀ call, t.kind call = .functionPostfix → t'.image call = t.image call) :
    isPregMatchOutput t' = isPregMatchOutput t := by
  funext v
  simp only [isPregMatchOutput, ha.parentOf, ha.kind, ha.children, ha.child?]
  refine congrArg (t.parentOf v >>= ·) (funext fun arguments => ?_)
  split_ifs
  · rfl
  · refine congrArg (t.parentOf arguments >>= ·) (funext fun call => ?_)
    by_cases hcall : t.kind call = .functionPostfix
    · rw [himage call hcall]
    · rw [if_pos (bne_iff_ne.2 hcall), if_pos (bne_iff_ne.2 hcall)]

theorem undefinedIn_eq_error_alike (h : t.WellFormed) (h' : t'.WellFormed) (settings : Settings) (e : RuleError) :
    undefinedIn t settings f = .error e ↔ undefinedIn t' settings f = .error e := by
  rw [undefinedIn_eq_error_iff h, undefinedIn_eq_error_iff h', Tree.lacks, Tree.lacks, ha.children, ha.kind,
    ha.beginLine]

end Alike

theorem firstOfImage_congr {vs : List Nat} (hvs : ∀ v ∈ vs, t'.image v = t.image v) (seen : List String) :
    firstOfImage t' seen vs = firstOfImage t seen vs := by
  induction vs generalizing seen with
  | nil => rfl
  | cons v vs ih =>
    obtain ⟨hv, hvs⟩ := List.forall_mem_cons.1 hvs
    rw [firstOfImage, firstOfImage, hv, ih hvs, ih hvs]

theorem owningScope_of_mem_undefinedIn (h : t.WellFormed) {settings : Settings} {vs : List Nat}
    (hvs : undefinedIn t settings f = .ok vs) (hv : v ∈ vs) : owningScope t v = some f :=
  ((mem_locals h).1 ((sublist_of_undefinedIn hvs).subset hv)).2

theorem report_eq_map (t : Tree) (settings : Settings) (u : Nat) : report t settings u =
    (((frames t settings.analyzeClosures u).mapM (undefinedIn t settings)).map List.flatten).map
      (List.map (Rule.undefinedVariable.violationAt t)) := by
  rw [report]
  cases (frames t settings.analyzeClosures u).mapM (undefinedIn t settings) <;> rfl

/-! ### Trees that differ in one frame -/

/-- A variable of a frame that stands in no `use` clause. -/
def Loose (t : Tree) (c i : Nat) : Prop :=
  t.kind i = .var ∧ owningScope t i = some c ∧ ∀ a ∈ t.ancestors i, t.kind a ≠ .closureUse

/-- Two trees are the same, apart from the names of the variables of one frame. -/
structure SameOutside (c : Nat) (t t' : Tree) : Prop where
  size : t'.size = t.size
  kind : ∀ i, t'.kind i = t.kind i
  parent : ∀ i, t'.parent i = t.parent i
  beginLine : ∀ i, t'.beginLine i = t.beginLine i
  endLine : ∀ i, t'.endLine i = t.endLine i
  isAbstract : ∀ i, t'.isAbstract i = t.isAbstract i
  image : ∀ i, ¬Loose t c i → t'.image i = t.image i

instance (t : Tree) (c i : Nat) : Decidable (Loose t c i) :=
  inferInstanceAs (Decidable (t.kind i = .var ∧ owningScope t i = some c ∧ ∀ a ∈ t.ancestors i, t.kind a ≠ .closureUse))

namespace SameOutside

/-- Numbers that are not in use have the same node in all trees. -/
theorem iff_forall_lt : SameOutside c t t' ↔ t'.size = t.size ∧ ∀ i < t.size, t'.kind i = t.kind i ∧
    t'.parent i = t.parent i ∧ t'.beginLine i = t.beginLine i ∧ t'.endLine i = t.endLine i ∧
    t'.isAbstract i = t.isAbstract i ∧ (Loose t c i ∨ t'.image i = t.image i) := by
  constructor
  · intro h
    refine ⟨h.size, fun i _ => ⟨h.kind i, h.parent i, h.beginLine i, h.endLine i, h.isAbstract i, ?_⟩⟩
    by_cases hloose : Loose t c i
    · exact .inl hloose
    · exact .inr (h.image i hloose)
  · rintro ⟨hsize, hnodes⟩
    have hout : ∀ i, ¬i < t.size → t'.node i = t.node i := by
      intro i hi
      rw [Tree.node_of_size_le (Nat.le_of_not_lt hi), Tree.node_of_size_le (hsize ▸ Nat.le_of_not_lt hi)]
    have hsame : ∀ i, t'.kind i = t.kind i ∧ t'.parent i = t.parent i ∧ t'.beginLine i = t.beginLine i ∧
        t'.endLine i = t.endLine i ∧ t'.isAbstract i = t.isAbstract i ∧ (Loose t c i ∨ t'.image i = t.image i) := by
      intro i
      by_cases hi : i < t.size
      · exact hnodes i hi
      · simp [Tree.kind, Tree.parent, Tree.beginLine, Tree.endLine, Tree.isAbstract, Tree.image, hout i hi]
    exact ⟨hsize, fun i => (hsame i).1, fun i => (hsame i).2.1, fun i => (hsame i).2.2.1, fun i => (hsame i).2.2.2.1,
      fun i => (hsame i).2.2.2.2.1, fun i hi => (hsame i).2.2.2.2.2.resolve_left hi⟩

instance (c : Nat) (t t' : Tree) : Decidable (SameOutside c t t') := decidable_of_iff' _ iff_forall_lt

theorem alike (hsame : SameOutside c t t') (h : t.WellFormed) (h' : t'.WellFormed) : t.Alike t' where
  size := hsame.size
  kind := funext hsame.kind
  parent := funext hsame.parent
  children := h.children_eq h' (funext hsame.parent)
  beginLine := funext hsame.beginLine
  endLine := funext hsame.endLine
  isAbstract := funext hsame.isAbstract

variable (hsame : SameOutside c t t')

include hsame

theorem image_of_kind (hi : t.kind i ≠ .var) : t'.image i = t.image i := hsame.image i fun hloose => hi hloose.1

theorem image_of_owningScope (hi : owningScope t i ≠ some c) : t'.image i = t.image i :=
  hsame.image i fun hloose => hi hloose.2.1

theorem image_of_closureUse {a : Nat} (ha : a ∈ t.ancestors i) (hkind : t.kind a = .closureUse) :
    t'.image i = t.image i :=
  hsame.image i fun hloose => hloose.2.2 a ha hkind

variable (h : t.WellFormed) (ha : t.Alike t')

include ha

theorem parameterNames_eq : parameterNames t' f = parameterNames t f := by
  rw [parameterNames, parameterNames, ha.requireChild, ha.descendantsOfKind]
  refine congrArg (t.requireChild f .formalParameters >>= ·) (funext fun list => ?_)
  refine congrArg pure (List.map_congr_left fun i hi => hsame.image_of_kind ?_)
  rw [beq_iff_eq.1 (List.mem_filter.1 hi).2]
  decide

theorem locals_eq (hf : f ≠ c) : locals t' f = locals t f := by
  rw [locals, locals, ha.descendantsOfKind, owningScope_alike ha]
  refine List.filter_congr fun v _ => ?_
  by_cases howner : owningScope t v = some f
  · have himage : t'.image v = t.image v := hsame.image_of_owningScope (by rw [howner]; simpa using hf)
    rw [Tree.isLocalVariable, Tree.isLocalVariable, ha.kind, himage]
  · rw [beq_eq_false_iff_ne.2 howner, Bool.and_false, Bool.and_false]

include h

/-- The names of a `use` clause are the same, for they stand in the clause. -/
theorem capturedNames_eq : capturedNames t' f = capturedNames t f := by
  rw [capturedNames, capturedNames, ha.kind, ha.firstChildOfKind, ha.descendantsOfKind]
  cases hclause : t.firstChildOfKind f .closureUse with
  | none => rfl
  | some clause =>
    have hkind : t.kind clause = .closureUse :=
      beq_iff_eq.1 (List.find?_some (p := fun child => t.kind child == .closureUse) hclause)
    have himages : (t.descendantsOfKind clause .var).map t'.image = (t.descendantsOfKind clause .var).map t.image :=
      List.map_congr_left fun i hi =>
        hsame.image_of_closureUse (h.mem_descendants.1 (List.mem_filter.1 hi).1) hkind
    simp only [himages]

/-- What is undefined in a frame does not depend on the names of another frame. -/
theorem undefinedIn_eq (hf : f ≠ c) (settings : Settings) : undefinedIn t' settings f = undefinedIn t settings f := by
  have himage : ∀ v ∈ locals t f, t'.image v = t.image v := by
    intro v hv
    apply hsame.image_of_owningScope
    rw [((mem_locals h).1 hv).2]
    simpa using hf
  have hfirst : firstOfImage t' [] (locals t' f) = firstOfImage t [] (locals t f) := by
    rw [hsame.locals_eq ha hf, firstOfImage_congr himage]
  have hpreg : isPregMatchOutput t' = isPregMatchOutput t :=
    isPregMatchOutput_alike ha fun call hcall => hsame.image_of_kind (by rw [hcall]; decide)
  simp only [undefinedIn, hsame.parameterNames_eq ha, hsame.capturedNames_eq h ha, hfirst, isDefinition_alike ha, hpreg]
  refine congrArg (parameterNames t f >>= ·) (funext fun parameters => ?_)
  -- Names are compared only of variables of the frame, and these are the same in both trees.
  have hunbound : (firstOfImage t [] (locals t f)).filter
        (fun v => !(parameters ++ capturedNames t f).contains (t'.image v)) =
      (firstOfImage t [] (locals t f)).filter
        (fun v => !(parameters ++ capturedNames t f).contains (t.image v)) := by
    refine List.filter_congr fun v hv => ?_
    rw [himage v ((firstOfImage_sublist [] _).subset hv)]
  rw [hunbound]

/-- In every frame the same is found, if what is found in the one frame is left out. -/
theorem agreeOn_undefinedIn (h' : t'.WellFormed) (settings : Settings) (f : Nat) :
    AgreeOn (fun i => owningScope t i != some c) (undefinedIn t settings f) (undefinedIn t' settings f) := by
  by_cases hf : f = c
  · -- Whatever is found in the frame itself is left out on both sides.
    subst hf
    refine .of_all_dropped (undefinedIn_eq_error_alike ha h h' settings) (fun vs hvs v hv => ?_) fun vs hvs v hv => ?_
    · simp [owningScope_of_mem_undefinedIn h hvs hv]
    · simp [← owningScope_alike ha, owningScope_of_mem_undefinedIn h' hvs hv]
  · rw [hsame.undefinedIn_eq h ha hf]
    exact .refl _ _

theorem agreeOn_report (h' : t'.WellFormed) (settings : Settings) (u : Nat) :
    AgreeOn (fun violation => owningScope t violation.node != some c) (report t settings u) (report t' settings u) := by
  have hviolation : ∀ i, (owningScope t i != some c) = true →
      Rule.undefinedVariable.violationAt t i = Rule.undefinedVariable.violationAt t' i := by
    intro i hi
    rw [Rule.violationAt, Rule.violationAt, ha.beginLine, ha.endLine, hsame.image_of_owningScope (by simpa using hi)]
  rw [report_eq_map, report_eq_map, frames_alike ha]
  exact (AgreeOn.flatten_mapM fun f _ => hsame.agreeOn_undefinedIn h ha h' settings f).map (fun _ => rfl) (fun _ => rfl)
    hviolation

end SameOutside

end UndefinedVariable

/-! ### Terminators -/

namespace UnreachableCode

variable (ha : t.Alike t')

include ha

theorem terminators_alike : terminators t' = terminators t := by
  funext u
  have henclosing : enclosingUnit t' = enclosingUnit t := by
    funext i
    rw [enclosingUnit, enclosingUnit, ha.ancestors, ha.kind]
  rw [terminators, terminators, ha.descendants, ha.kind, henclosing]

theorem isFinal_alike : isFinal t' = isFinal t := by
  have hends : endsWith t' = endsWith t := by
    funext scope i
    rw [endsWith, endsWith, ha.endLine]
  have habove : above t' = above t := by
    funext kind block test
    rw [above, above, ha.kind, ha.parentOf]
  funext finality u i
  simp only [isFinal, endsItsBlock, endsUnit, endsBranch, endsCase, endsTry, endsOuter, endsCatch, endsFinally,
    endsClosure, ha.isLastChild, ha.parentOf, ha.kind, ha.endLine, ha.firstChildOfKind, hends, habove]

theorem report_alike (himage : ∀ i, t.kind i ≠ .var → t'.image i = t.image i) (finality : Finality) (u : Nat) :
    report t' finality u = report t finality u := by
  rw [report, report, terminators_alike ha, isFinal_alike ha]
  cases hfound : (terminators t u).filterM fun i => do return !(← isFinal t finality u i) with
  | error e => rfl
  | ok found =>
    have hviolation : ∀ i ∈ found, Rule.unreachableCode.violationAt t' i = Rule.unreachableCode.violationAt t i := by
      intro i hi
      have hkind : isTerminator (t.kind i) = true :=
        (Bool.and_eq_true_iff.1 (List.mem_filter.1 ((sublist_of_filterM hfound).subset hi)).2).1
      have hvar : t.kind i ≠ .var := by
        intro heq
        rw [heq] at hkind
        cases hkind
      rw [Rule.violationAt, Rule.violationAt, ha.beginLine, ha.endLine, himage i hvar]
    exact congrArg Except.ok (List.map_congr_left hviolation)

end UnreachableCode

/-! ### Rules -/

/-- In trees that are the same apart from the names of the variables of one frame, a rule notes the same and fails
alike. If it does not fail, it finds the same in the other frames, and the same unreachable code in all of them. -/
theorem findings_of_other_frames (t t' : Tree) (h : t.Built) (h' : t'.Built) (c : Nat)
    (hsame : UndefinedVariable.SameOutside c t t') (u : Nat) (o : Options) :
    UndefinedVariable.owningScope t' = UndefinedVariable.owningScope t ∧
    (Rule.undefinedVariable.apply t' u o).messages = (Rule.undefinedVariable.apply t u o).messages ∧
    AgreeOn (fun violation => UndefinedVariable.owningScope t violation.node != some c)
      (Rule.undefinedVariable.apply t u o).value (Rule.undefinedVariable.apply t' u o).value ∧
    Rule.unreachableCode.apply t' u o = Rule.unreachableCode.apply t u o := by
  have ha := hsame.alike h.wellFormed h'.wellFormed
  have hreport := UnreachableCode.report_alike ha fun i hi => hsame.image_of_kind hi
  refine ⟨UndefinedVariable.owningScope_alike ha, ?_, ?_, ?_⟩
  · rw [Rule.apply, Rule.apply, ha.isAbstract]
    split_ifs <;> rfl
  · rw [Rule.apply, Rule.apply, ha.isAbstract]
    split_ifs
    · exact .refl _ _
    · exact hsame.agreeOn_report h.wellFormed ha h'.wellFormed _ u
  · simp only [Rule.apply, ha.isAbstract, ha.requireChild, hreport]

/-- A function that reads two variables of its own and returns a closure, which captures one of them. -/
def closureReading (name : String) : String :=
  "<?php function f() \x7b g($x); return function () use ($z) \x7b return " ++ name ++ "; \x7d; \x7d"

def closureReadingTree (name : String) : Tree :=
  Php.treeOf (Source.ofText (closureReading name)) (Php.Program.ofText (closureReading name)).statements

/-- The closure may read the other variable of the function, which it does not capture, or the captured one. The
function reads two undefined variables either way. -/
theorem findings_of_other_frames_closureReading :
    ((closureReadingTree "$x").Built ∧ (closureReadingTree "$z").Built ∧
      UndefinedVariable.SameOutside 10 (closureReadingTree "$x") (closureReadingTree "$z")) ∧
    ((Rule.undefinedVariable.apply (closureReadingTree "$x") 2 (.empty "")).value.map (List.map Violation.token) =
        .ok ["$x", "$z", "$x"] ∧
      (Rule.undefinedVariable.apply (closureReadingTree "$z") 2 (.empty "")).value.map (List.map Violation.token) =
        .ok ["$x", "$z"]) ∧
    AgreeOn (fun violation => UndefinedVariable.owningScope (closureReadingTree "$x") violation.node != some 10)
      (Rule.undefinedVariable.apply (closureReadingTree "$x") 2 (.empty "")).value
      (Rule.undefinedVariable.apply (closureReadingTree "$z") 2 (.empty "")).value := by
  have hbuilt : ∀ name, (closureReadingTree name).Built := fun name => Php.built_treeOf _ _
  have hsame : UndefinedVariable.SameOutside 10 (closureReadingTree "$x") (closureReadingTree "$z") := by
    decide +kernel
  have hagree := findings_of_other_frames _ _ (hbuilt "$x") (hbuilt "$z") 10 hsame 2 (.empty "")
  exact ⟨⟨hbuilt _, hbuilt _, hsame⟩, by decide +kernel, hagree.2.2.1⟩

end PhpInspect
