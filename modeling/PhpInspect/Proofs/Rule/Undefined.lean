import Mathlib.Data.List.Nodup
import PhpInspect.Proofs.Rule.Ownership
import PhpInspect.Proofs.Tree.Arena

/-! # What counts as undefined

A variable is reported in the frame that owns it if it comes first among the variables of its name there, is neither a
parameter nor taken with `use`, and is not defined where it stands. The report lists these variables frame by frame,
in the order in which they stand in the tree.
-/

namespace PhpInspect

variable {t : Tree} {i p f o u v w : Nat}

/-! ### Pre-order -/

section Lists

variable {α : Type} {part whole : List α} {x y : α}

/-- A part of a list without repetitions that keeps the order is what a test leaves of it. -/
theorem eq_filter_of_sublist {test : α → Bool} (h : part.Sublist whole) (hnodup : whole.Nodup)
    (hmem : ∀ x ∈ whole, x ∈ part ↔ test x = true) : part = whole.filter test := by
  induction h with
  | slnil => rfl
  | @cons part whole x hsub ih =>
    have hx : x ∉ part := fun hx => (List.nodup_cons.1 hnodup).1 (hsub.subset hx)
    rw [List.filter_cons_of_neg (fun htest => hx ((hmem x List.mem_cons_self).2 htest))]
    exact ih hnodup.of_cons fun y hy => hmem y (List.mem_cons_of_mem _ hy)
  | @cons_cons part whole x hsub ih =>
    rw [List.filter_cons_of_pos ((hmem x List.mem_cons_self).1 List.mem_cons_self)]
    congr 1
    refine ih hnodup.of_cons fun y hy => ?_
    rw [← hmem y (List.mem_cons_of_mem _ hy), List.mem_cons, or_iff_right]
    rintro rfl
    exact (List.nodup_cons.1 hnodup).1 hy

theorem pair_sublist_cons {z : α} : [x, y].Sublist (z :: whole) ↔ x = z ∧ y ∈ whole ∨ [x, y].Sublist whole := by
  rw [List.sublist_cons_iff, or_comm]
  simp

/-- Such a part keeps the items that it has in their order. -/
theorem pair_sublist_iff [DecidableEq α] (h : part.Sublist whole) (hnodup : whole.Nodup) (hx : x ∈ part)
    (hy : y ∈ part) : [x, y].Sublist part ↔ [x, y].Sublist whole := by
  refine ⟨fun hpair => hpair.trans h, fun hpair => ?_⟩
  have hfilter : part = whole.filter (· ∈ part) := eq_filter_of_sublist h hnodup fun z _ => by simp
  have hkept := hpair.filter (· ∈ part)
  rw [← hfilter] at hkept
  simpa [hx, hy] using hkept

end Lists

namespace Tree

/-- A node comes before another in pre-order. -/
def Before (t : Tree) (w v : Nat) : Prop := [w, v].Sublist (t.descendants root)

instance (t : Tree) (w v : Nat) : Decidable (t.Before w v) :=
  inferInstanceAs (Decidable ([w, v].Sublist (t.descendants root)))

theorem WellFormed.subtree_sublist_of_parent (h : t.WellFormed) (hp : t.parent i = some p) :
    (t.subtree i).Sublist (t.descendants p) := by
  rw [h.descendants_eq_flatMap]
  obtain ⟨before, behind, hsplit⟩ := List.append_of_mem ((h.mem_children p i).2 hp)
  rw [hsplit, List.flatMap_append, List.flatMap_cons]
  exact (List.sublist_append_left _ _).trans (List.sublist_append_right _ _)

/-- The nodes below a node come in the order that they have in the whole tree. -/
theorem WellFormed.descendants_sublist (h : t.WellFormed) (hi : i < t.size) :
    (t.descendants i).Sublist (t.descendants root) := by
  induction i using h.upward with
  | orphan i hnone =>
    obtain rfl : i = root := by
      by_contra hne
      obtain ⟨p, hp⟩ := h.exists_parent i (Nat.pos_of_ne_zero hne) hi
      rw [hnone] at hp
      cases hp
    exact List.Sublist.refl _
  | step i p hp ih =>
    have hsub := h.subtree_sublist_of_parent hp
    rw [h.subtree_eq_cons] at hsub
    exact ((List.sublist_cons_self i _).trans hsub).trans (ih (Nat.lt_trans (h.parent_lt i p hp) hi))

end Tree

namespace UndefinedVariable

/-! ### One frame -/

theorem descendants_sublist_of_owningScope (h : t.WellFormed) (howner : owningScope t v = some f) :
    (t.descendants f).Sublist (t.descendants Tree.root) := by
  apply h.descendants_sublist
  have hlt := lt_of_owningScope h howner
  have habove := mem_ancestors_of_owningScope howner
  cases hp : t.parent v with
  | none =>
    rw [Tree.ancestors_of_parent_none hp] at habove
    cases habove
  | some p => exact Nat.lt_trans hlt (Tree.lt_size_of_parent hp)

/-- A variable that is undefined in a frame. -/
structure Undefined (t : Tree) (settings : Settings) (frame v : Nat) : Prop where
  isLocal : t.isLocalVariable v = true
  owner : owningScope t v = some frame
  /-- No variable of the frame with the same name comes before it. -/
  first : ∀ w < t.size, t.Before w v → t.isLocalVariable w = true → owningScope t w = some frame →
    t.image w ≠ t.image v
  /-- It is not the name of a parameter. -/
  parameter : ∀ list ∈ t.firstChildOfKind frame .formalParameters,
    ∀ d ∈ t.descendantsOfKind list .variableDeclarator, t.image d ≠ t.image v
  /-- It is not the name of what a closure takes with `use`. -/
  captured : t.kind frame = .closure → ∀ uses ∈ t.firstChildOfKind frame .closureUse,
    ∀ d ∈ t.descendantsOfKind uses .var, t.image d ≠ t.image v
  /-- It is not defined where it stands. -/
  definition : isDefinition t v = .ok false
  output : settings.ignorePregMatch = true → isPregMatchOutput t v = .ok false

instance (t : Tree) (settings : Settings) (frame v : Nat) : Decidable (Undefined t settings frame v) :=
  decidable_of_iff (_ ∧ _ ∧ _ ∧ _ ∧ _ ∧ _ ∧ _)
    ⟨fun ⟨h₁, h₂, h₃, h₄, h₅, h₆, h₇⟩ => ⟨h₁, h₂, h₃, h₄, h₅, h₆, h₇⟩, fun ⟨h₁, h₂, h₃, h₄, h₅, h₆, h₇⟩ =>
      ⟨h₁, h₂, h₃, h₄, h₅, h₆, h₇⟩⟩

/-- The first variable of each name is kept. -/
theorem mem_firstOfImage {seen : List String} {vs : List Nat} (hnodup : vs.Nodup) : v ∈ firstOfImage t seen vs ↔
    v ∈ vs ∧ t.image v ∉ seen ∧ ∀ w, [w, v].Sublist vs → t.image w ≠ t.image v := by
  induction vs generalizing seen with
  | nil => simp [firstOfImage]
  | cons x vs ih =>
    obtain ⟨hx, hnodup⟩ := List.nodup_cons.1 hnodup
    simp only [firstOfImage, List.contains_iff_mem, pair_sublist_cons, List.mem_cons]
    split_ifs with hseen
    · rw [ih hnodup]
      constructor
      · rintro ⟨hv, hunseen, hfirst⟩
        refine ⟨.inr hv, hunseen, ?_⟩
        rintro w (⟨rfl, -⟩ | hpair)
        · exact fun heq => hunseen (heq ▸ hseen)
        · exact hfirst w hpair
      · rintro ⟨rfl | hv, hunseen, hfirst⟩
        · exact absurd hseen hunseen
        · exact ⟨hv, hunseen, fun w hpair => hfirst w (.inr hpair)⟩
    · rw [List.mem_cons, ih hnodup, List.mem_cons, not_or]
      constructor
      · rintro (rfl | ⟨hv, ⟨hne, hunseen⟩, hfirst⟩)
        · refine ⟨.inl rfl, hseen, ?_⟩
          rintro w (⟨-, hv⟩ | hpair)
          · exact absurd hv hx
          · exact absurd (hpair.subset (List.mem_cons_of_mem _ List.mem_cons_self)) hx
        · refine ⟨.inr hv, hunseen, ?_⟩
          rintro w (⟨rfl, -⟩ | hpair)
          · exact Ne.symm hne
          · exact hfirst w hpair
      · rintro ⟨rfl | hv, hunseen, hfirst⟩
        · exact .inl rfl
        · have hne := hfirst x (.inl ⟨rfl, hv⟩)
          exact .inr ⟨hv, ⟨Ne.symm hne, hunseen⟩, fun w hpair => hfirst w (.inr hpair)⟩

theorem mem_parameterNames {parameters : List String} {name : String} (h : parameterNames t f = .ok parameters) :
    name ∈ parameters ↔ ∃ list ∈ t.firstChildOfKind f .formalParameters,
      ∃ d ∈ t.descendantsOfKind list .variableDeclarator, t.image d = name := by
  obtain ⟨list, hlist, h⟩ := exists_of_bind_eq_ok h
  cases h
  have hchild : t.firstChildOfKind f .formalParameters = some list := by
    rw [Tree.requireChild] at hlist
    split at hlist
    · cases hlist
      assumption
    · cases hlist
  simp [hchild]

theorem mem_capturedNames {name : String} : name ∈ capturedNames t f ↔
    t.kind f = .closure ∧ ∃ uses ∈ t.firstChildOfKind f .closureUse,
      ∃ d ∈ t.descendantsOfKind uses .var, t.image d = name := by
  rw [capturedNames]
  cases t.firstChildOfKind f .closureUse <;> simp

/-- Among the variables of a frame, coming before another does not depend on the frame. -/
theorem pair_sublist_locals (h : t.WellFormed) (hw : w ∈ locals t f) (hv : v ∈ locals t f) :
    [w, v].Sublist (locals t f) ↔ t.Before w v := by
  have hsub := descendants_sublist_of_owningScope h ((mem_locals h).1 hv).2
  exact pair_sublist_iff ((List.filter_sublist.trans List.filter_sublist).trans hsub) (h.nodup_descendants _) hw hv

theorem lt_size_of_isLocalVariable (h : t.isLocalVariable v = true) : v < t.size := by
  apply Tree.lt_size_of_kind
  simp only [Tree.isLocalVariable, Bool.and_eq_true, beq_iff_eq] at h
  rw [h.1]
  decide

theorem mem_firstOfImage_locals (h : t.WellFormed) : v ∈ firstOfImage t [] (locals t f) ↔
    (t.isLocalVariable v = true ∧ owningScope t v = some f) ∧ ∀ w < t.size, t.Before w v →
      t.isLocalVariable w = true → owningScope t w = some f → t.image w ≠ t.image v := by
  rw [mem_firstOfImage (nodup_locals h f), mem_locals h, and_congr_right_iff]
  intro hv
  rw [← mem_locals h] at hv
  constructor
  · rintro ⟨-, hfirst⟩ w - hbefore hlocal howner
    exact hfirst w ((pair_sublist_locals h ((mem_locals h).2 ⟨hlocal, howner⟩) hv).2 hbefore)
  · intro hfirst
    refine ⟨List.not_mem_nil, fun w hpair => ?_⟩
    have hw : w ∈ locals t f := hpair.subset List.mem_cons_self
    obtain ⟨hlocal, howner⟩ := (mem_locals h).1 hw
    exact hfirst w (lt_size_of_isLocalVariable hlocal) ((pair_sublist_locals h hw hv).1 hpair) hlocal howner

/-- What is found undefined in a frame is what is undefined in it. -/
theorem mem_undefinedIn {settings : Settings} {vs : List Nat} (h : t.WellFormed)
    (hvs : undefinedIn t settings f = .ok vs) : v ∈ vs ↔ Undefined t settings f v := by
  obtain ⟨parameters, hparameters, hvs⟩ := exists_of_bind_eq_ok hvs
  obtain ⟨undefined, hundefined, hvs⟩ := exists_of_bind_eq_ok hvs
  have houtput : v ∈ vs ↔ v ∈ undefined ∧ (settings.ignorePregMatch = true → isPregMatchOutput t v = .ok false) := by
    split_ifs at hvs with hignore
    · rw [mem_of_filterM hvs, not_eq_ok_true]
      simp [hignore]
    · cases hvs
      simp [hignore]
  rw [houtput, mem_of_filterM hundefined, not_eq_ok_true, List.mem_filter, mem_firstOfImage_locals h]
  simp only [List.contains_eq_mem, List.mem_append, mem_parameterNames hparameters, mem_capturedNames]
  constructor
  · rintro ⟨⟨⟨⟨⟨hlocal, howner⟩, hfirst⟩, hbound⟩, hdefinition⟩, hpreg⟩
    simp only [Bool.not_eq_true', decide_eq_false_iff_not, not_or, not_and, not_exists] at hbound
    exact ⟨hlocal, howner, hfirst, fun list hlist d hd => hbound.1 list hlist d hd,
      fun hclosure uses huses d hd => hbound.2 hclosure uses huses d hd, hdefinition, hpreg⟩
  · rintro ⟨hlocal, howner, hfirst, hparameter, hcaptured, hdefinition, hpreg⟩
    refine ⟨⟨⟨⟨⟨hlocal, howner⟩, hfirst⟩, ?_⟩, hdefinition⟩, hpreg⟩
    simp only [Bool.not_eq_true', decide_eq_false_iff_not, not_or, not_and, not_exists]
    exact ⟨hparameter, hcaptured⟩

/-- Nodes that a frame owns, in the order of the nodes below it, are what a test leaves of the whole tree. -/
theorem eq_filter_of_owned {part : List Nat} {test : Nat → Bool} (h : t.WellFormed)
    (hsub : part.Sublist (t.descendants f)) (howner : ∀ v ∈ part, owningScope t v = some f)
    (hmem : ∀ v, v ∈ part ↔ test v = true) : part = (t.descendants Tree.root).filter test := by
  cases part with
  | nil =>
    symm
    rw [List.filter_eq_nil_iff]
    exact fun v _ hv => absurd ((hmem v).2 hv) List.not_mem_nil
  | cons v vs =>
    -- A node that the frame owns shows that the frame is a node of the tree.
    have hframe := descendants_sublist_of_owningScope h (howner v List.mem_cons_self)
    exact eq_filter_of_sublist (hsub.trans hframe) (h.nodup_descendants _) fun w _ => hmem w

/-- The undefined variables of a frame come in pre-order. -/
theorem undefinedIn_eq_filter {settings : Settings} {vs : List Nat} (h : t.WellFormed)
    (hvs : undefinedIn t settings f = .ok vs) :
    vs = (t.descendants Tree.root).filter (Undefined t settings f) := by
  apply eq_filter_of_owned h ((sublist_of_undefinedIn hvs).trans (List.filter_sublist.trans List.filter_sublist))
  · exact fun v hv => ((mem_undefinedIn h hvs).1 hv).owner
  · intro v
    rw [mem_undefinedIn h hvs, decide_eq_true_iff]

theorem ownedClosures_eq_filter (h : t.WellFormed) (o : Nat) : ownedClosures t o =
    (t.descendants Tree.root).filter fun c => t.kind c == .closure && owningScope t c == some o := by
  have hsub : (ownedClosures t o).Sublist (t.descendants o) := List.filter_sublist.trans List.filter_sublist
  apply eq_filter_of_owned h hsub
  · exact fun c hc => ((mem_ownedClosures h).1 hc).2
  · intro c
    rw [mem_ownedClosures h, Bool.and_eq_true, beq_iff_eq, beq_iff_eq]

/-! ### All frames -/

/-- A name is undefined at one variable of a frame only. -/
theorem nodup_images_of_undefined (settings : Settings) (f : Nat) :
    (((t.descendants Tree.root).filter (Undefined t settings f)).map t.image).Nodup := by
  rw [List.Nodup, List.pairwise_map, List.pairwise_iff_forall_sublist]
  intro w v hpair
  have hw : Undefined t settings f w := by
    simpa using (List.mem_filter.1 (hpair.subset List.mem_cons_self)).2
  have hv : Undefined t settings f v := by
    simpa using (List.mem_filter.1 (hpair.subset (List.mem_cons_of_mem _ List.mem_cons_self))).2
  exact hv.first w (lt_size_of_isLocalVariable hw.isLocal) (hpair.trans List.filter_sublist) hw.isLocal hw.owner

theorem nodup_owned_names (h : t.WellFormed) (settings : Settings) (u : Nat) :
    (((frames t settings.analyzeClosures u).flatMap fun f =>
      (t.descendants Tree.root).filter (Undefined t settings f)).map fun v => (owningScope t v, t.image v)).Nodup := by
  have howner : ∀ f, ∀ v ∈ (t.descendants Tree.root).filter (Undefined t settings f), owningScope t v = some f := by
    intro f v hv
    rw [List.mem_filter, decide_eq_true_iff] at hv
    exact hv.2.owner
  rw [List.map_flatMap, List.nodup_flatMap]
  constructor
  · intro f _
    refine List.Nodup.of_map Prod.snd ?_
    rw [List.map_map]
    exact nodup_images_of_undefined settings f
  · refine (nodup_framesWithin h t.size u).imp ?_
    intro f g hne pair hf hg
    obtain ⟨v, hv, rfl⟩ := List.mem_map.1 hf
    obtain ⟨w, hw, heq⟩ := List.mem_map.1 hg
    apply hne
    rw [← Option.some_inj, ← howner f v hv, ← howner g w hw]
    exact (congrArg Prod.fst heq).symm

theorem report_eq_spec {settings : Settings} {violations : List Violation} (h : t.WellFormed)
    (hok : report t settings u = .ok violations) :
    violations = ((frames t settings.analyzeClosures u).flatMap fun f =>
      (t.descendants Tree.root).filter (Undefined t settings f)).map (Rule.undefinedVariable.violationAt t) := by
  obtain ⟨found, hfound, hok⟩ := exists_of_bind_eq_ok hok
  cases hok
  rw [flatten_eq_of_mapM hfound fun f _ vs hvs => undefinedIn_eq_filter h hvs]

/-- Frame by frame, a frame before the closures that it owns, the rule reports the variables that are undefined in the
frame, in pre-order. It reports a name at most once for each frame. -/
theorem reports_exactly_undefined (t : Tree) (h : t.Built) (u : Nat) (hu : t.isAbstract u = false) (o : Options)
    (settings : Settings) (hsettings : (Settings.ofOptions o).value = settings) (violations : List Violation)
    (hok : (Rule.undefinedVariable.apply t u o).value = .ok violations) :
    violations = ((frames t settings.analyzeClosures u).flatMap fun f =>
      (t.descendants Tree.root).filter (Undefined t settings f)).map (Rule.undefinedVariable.violationAt t) ∧
    (∀ f, frames t settings.analyzeClosures f = f :: if settings.analyzeClosures then
      ((t.descendants Tree.root).filter fun c => t.kind c == .closure && owningScope t c == some f).flatMap
        (frames t settings.analyzeClosures) else []) ∧
    (violations.map fun violation => (owningScope t violation.node, violation.token)).Nodup := by
  have hwf := h.wellFormed
  have hreport : report t settings u = .ok violations := by
    rw [Rule.apply.eq_def, hu] at hok
    rw [← hsettings]
    exact hok
  have hviolations := report_eq_spec hwf hreport
  refine ⟨hviolations, fun f => ?_, ?_⟩
  · rw [← ownedClosures_eq_filter hwf f]
    exact frames_eq hwf settings.analyzeClosures f
  · rw [hviolations, List.map_map]
    exact nodup_owned_names hwf settings u

/-- A function and a closure in it that read the same name, the closure twice. -/
def sharedName : String :=
  "<?php function f($a) { throw $b; return function () use ($a) { throw $a; return $b; throw $b; }; }"

def sharedNameTree : Tree := Php.treeOf (Source.ofText sharedName) (Php.Program.ofText sharedName).statements

theorem sharedName_reports_exactly_undefined :
    (sharedNameTree.isAbstract 2 = false ∧ (Rule.undefinedVariable.apply sharedNameTree 2 (.empty "")).value =
      .ok ([8, 18].map (Rule.undefinedVariable.violationAt sharedNameTree))) ∧
    [8, 18].map (Rule.undefinedVariable.violationAt sharedNameTree) =
      ((frames sharedNameTree true 2).flatMap fun f => (sharedNameTree.descendants Tree.root).filter
        (Undefined sharedNameTree ⟨false, true⟩ f)).map (Rule.undefinedVariable.violationAt sharedNameTree) := by
  have hrun : sharedNameTree.isAbstract 2 = false ∧
      (Rule.undefinedVariable.apply sharedNameTree 2 (.empty "")).value =
        .ok ([8, 18].map (Rule.undefinedVariable.violationAt sharedNameTree)) := by decide +kernel
  refine ⟨hrun, ?_⟩
  exact (reports_exactly_undefined sharedNameTree (Php.built_treeOf _ _) 2 hrun.1 (.empty "") ⟨false, true⟩
    (by decide +kernel) _ hrun.2).1

end UndefinedVariable

end PhpInspect
