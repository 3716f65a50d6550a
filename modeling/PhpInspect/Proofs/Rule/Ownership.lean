import Mathlib.Data.List.Flatten
import PhpInspect.Php.Parse.Program
import PhpInspect.Proofs.Php.AnalysisTree
import PhpInspect.Proofs.Rule.Frames
import PhpInspect.Proofs.Rule.Terminators
import PhpInspect.Rule.Apply

/-! # Every read has one owner

The frames visited from different functions and methods are different, and so are the variables of different frames.
So nothing is reported twice. In the analysis tree of a program every frame in a function or method is visited, so that
nothing in it is left out either.
-/

namespace PhpInspect

variable {t : Tree} {i p c f g o u v w depth : Nat} {nested : Bool}

/-! ### Nothing is reported twice -/

/-- The nodes that a rule reports over all functions and methods; where it fails it reports none. -/
def Rule.reportedNodes (r : Rule) (t : Tree) (o : Options) : List Nat :=
  t.units.flatMap fun u =>
    match (r.apply t u o).value with
    | .ok violations => violations.map (·.node)
    | .error _ => []

theorem Rule.map_node_violationAt (r : Rule) (t : Tree) (found : List Nat) :
    (found.map (r.violationAt t)).map (·.node) = found := by
  rw [List.map_map]
  exact List.map_id found

namespace UndefinedVariable

theorem not_mem_frames_of_isUnit (h : t.WellFormed) (hu : (t.kind u).isUnit = true) (hne : u ≠ w) :
    u ∉ frames t nested w := by
  intro hmem
  rcases closure_of_mem_framesWithin h hmem with heq | hclosure
  · exact hne heq
  · rw [hclosure] at hu
    cases hu

/-- No frame is visited twice, be it from one unit or from two. -/
theorem nodup_frames_of_units (h : t.WellFormed) (nested : Bool) : (t.units.flatMap (frames t nested)).Nodup := by
  rw [List.nodup_flatMap]
  refine ⟨fun u _ => nodup_framesWithin h t.size u, ?_⟩
  refine List.Pairwise.imp_of_mem ?_ h.nodup_units
  intro u w hu hw hne
  exact disjoint_framesWithin h (not_mem_frames_of_isUnit h (h.mem_units.1 hu) hne)
    (not_mem_frames_of_isUnit h (h.mem_units.1 hw) (Ne.symm hne))

theorem nodup_locals_of_frames (h : t.WellFormed) {frames : List Nat} (hframes : frames.Nodup) :
    (frames.flatMap (locals t)).Nodup := by
  rw [List.nodup_flatMap]
  refine ⟨fun f _ => nodup_locals h f, hframes.imp ?_⟩
  intro f g hne v hf hg
  have howner := ((mem_locals h).1 hf).2
  rw [((mem_locals h).1 hg).2] at howner
  exact hne (Option.some.inj howner).symm

theorem exists_of_report {settings : Settings} {violations : List Violation}
    (h : report t settings u = .ok violations) :
    ∃ found : List Nat, found.Sublist ((frames t settings.analyzeClosures u).flatMap (locals t)) ∧
      violations = found.map (Rule.undefinedVariable.violationAt t) := by
  obtain ⟨found, hfound, h⟩ := exists_of_bind_eq_ok h
  cases h
  exact ⟨found.flatten, flatten_sublist_of_mapM hfound fun f _ vs => sublist_of_undefinedIn, rfl⟩

end UndefinedVariable

namespace UnreachableCode

theorem nodup_terminators_of_units (h : t.WellFormed) : (t.units.flatMap (terminators t)).Nodup := by
  rw [List.nodup_flatMap]
  refine ⟨fun u _ => nodup_terminators h u, h.nodup_units.imp ?_⟩
  intro u w hne i hu hw
  have hunit := ((mem_terminators h).1 hu).2
  rw [((mem_terminators h).1 hw).2] at hunit
  exact hne (Option.some.inj hunit).symm

theorem exists_of_report {finality : Finality} {violations : List Violation}
    (h : report t finality u = .ok violations) :
    ∃ found : List Nat, found.Sublist (terminators t u) ∧
      violations = found.map (Rule.unreachableCode.violationAt t) := by
  obtain ⟨found, hfound, h⟩ := exists_of_bind_eq_ok h
  cases h
  exact ⟨found, sublist_of_filterM hfound, rfl⟩

end UnreachableCode

namespace Rule

/-- The nodes that a rule may report in a unit. -/
def candidates (r : Rule) (t : Tree) (o : Options) (u : Nat) : List Nat :=
  match r with
  | .undefinedVariable =>
    (UndefinedVariable.frames t (UndefinedVariable.Settings.ofOptions o).value.analyzeClosures u).flatMap
      (UndefinedVariable.locals t)
  | .unreachableCode => UnreachableCode.terminators t u

theorem nodup_candidates (h : t.WellFormed) (r : Rule) (o : Options) : (t.units.flatMap (r.candidates t o)).Nodup := by
  cases r with
  | undefinedVariable =>
    have hnodup := UndefinedVariable.nodup_locals_of_frames h (UndefinedVariable.nodup_frames_of_units h
      (UndefinedVariable.Settings.ofOptions o).value.analyzeClosures)
    rw [List.flatMap_assoc] at hnodup
    exact hnodup
  | unreachableCode => exact UnreachableCode.nodup_terminators_of_units h

/-- What a rule reports are violations at some of the nodes that it may report. -/
theorem exists_of_apply {r : Rule} {o : Options} {violations : List Violation}
    (h : (r.apply t u o).value = .ok violations) :
    ∃ found : List Nat, found.Sublist (r.candidates t o u) ∧ violations = found.map (r.violationAt t) := by
  rw [Rule.apply.eq_def] at h
  cases habstract : t.isAbstract u with
  | true =>
    rw [habstract] at h
    cases h
    exact ⟨[], List.nil_sublist _, rfl⟩
  | false =>
    rw [habstract] at h
    cases r with
    | undefinedVariable => exact UndefinedVariable.exists_of_report h
    | unreachableCode =>
      simp only [Bool.false_eq_true, if_false] at h
      split at h
      · cases h
      · exact UnreachableCode.exists_of_report h

theorem sublist_candidates {r : Rule} {o : Options} {violations : List Violation}
    (h : (r.apply t u o).value = .ok violations) : (violations.map (·.node)).Sublist (r.candidates t o u) := by
  obtain ⟨found, hfound, rfl⟩ := exists_of_apply h
  rwa [map_node_violationAt]

theorem nodup_reportedNodes (h : t.WellFormed) (r : Rule) (o : Options) : (r.reportedNodes t o).Nodup := by
  refine List.Nodup.sublist ?_ (r.nodup_candidates h o)
  apply List.Sublist.flatMap_right
  intro u _
  split
  · next violations hok => exact sublist_candidates hok
  · exact List.nil_sublist _

end Rule

/-! ### Nothing is left out -/

namespace UndefinedVariable

/-- The closures of a frame that is visited are visited, since there is no chain of frames longer than the tree. -/
theorem mem_framesWithin_of_mem_ownedClosures (h : t.WellFormed) (hdepth : t.size ≤ depth + o)
    (hg : g ∈ framesWithin t true depth o) (hc : c ∈ ownedClosures t g) : c ∈ framesWithin t true depth o := by
  induction depth generalizing o with
  | zero => cases hg
  | succ depth ih =>
    rcases mem_framesWithin_succ.1 hg with rfl | ⟨-, b, hb, hgb⟩
    · have howner := ((mem_ownedClosures h).1 hc).2
      have hlt := lt_of_owningScope h howner
      have hsize := lt_size_of_mem_ownedClosures h hc
      obtain ⟨depth, rfl⟩ : ∃ d, depth = d + 1 := ⟨depth - 1, by omega⟩
      exact mem_framesWithin_succ.2 (.inr ⟨rfl, c, hc, mem_framesWithin_succ.2 (.inl rfl)⟩)
    · have hlt := lt_of_owningScope h ((mem_ownedClosures h).1 hb).2
      exact mem_framesWithin_succ.2 (.inr ⟨rfl, b, hb, ih (by omega) hgb⟩)

theorem self_mem_frames (h : t.WellFormed) (u : Nat) : u ∈ frames t nested u := by
  rw [frames_eq h]
  exact List.mem_cons_self

/-- A node belongs to its parent, or where its parent does, unless it stands in a `use` clause. -/
theorem owningScope_of_parent (h : t.WellFormed) (hp : t.parent i = some p) (huse : t.kind p ≠ .closureUse) :
    owningScope t i = if (t.kind p).isCallable then some p else owningScope t p := by
  rw [owningScope, h.ancestors_of_parent hp, nearestFrame, if_neg (by rw [beq_iff_eq]; exact huse)]
  rfl

/-- What stands in a `use` clause belongs where the closure does. -/
theorem owningScope_of_closureUse (h : t.WellFormed) (hp : t.parent i = some p) (huse : t.kind p = .closureUse)
    (hc : t.parent p = some c) (hclosure : t.kind c = .closure) : owningScope t i = owningScope t c := by
  rw [owningScope, h.ancestors_of_parent hp, h.ancestors_of_parent hc, nearestFrame, nearestFrame, huse, hclosure]
  rfl

/-- In a program the frame that owns a node is visited from the unit around the node. -/
theorem owningScope_mem_frames (h : t.WellFormed) (hgrammar : t.Grammatical)
    (hu : UnreachableCode.enclosingUnit t i = some u) :
    ∃ f ∈ frames t true u, owningScope t i = some f := by
  induction i using Nat.strongRecOn with
  | ind i ih =>
    cases hp : t.parent i with
    | none => simp [UnreachableCode.enclosingUnit, Tree.ancestors_of_parent_none hp] at hu
    | some p =>
      have hlt := h.parent_lt i p hp
      rw [UnreachableCode.enclosingUnit_of_parent h hp] at hu
      by_cases huse : t.kind p = .closureUse
      · -- The clause and its closure are no units, so that the closure lies in the same unit.
        obtain ⟨c, hc⟩ := h.exists_parent_of_kind (i := p) (by rw [huse]; decide)
        have hclosure := hgrammar.kind_parent_of_closureUse h huse hc
        rw [huse, if_neg (by decide), UnreachableCode.enclosingUnit_of_parent h hc, hclosure, if_neg (by decide)] at hu
        rw [owningScope_of_closureUse h hp huse hc hclosure]
        exact ih c (Nat.lt_trans (h.parent_lt p c hc) hlt) hu
      · rw [owningScope_of_parent h hp huse]
        by_cases hunit : (t.kind p).isUnit = true
        · rw [if_pos hunit] at hu
          cases hu
          rw [if_pos (Kind.isCallable_of_isUnit hunit)]
          exact ⟨u, self_mem_frames h u, rfl⟩
        · rw [if_neg hunit] at hu
          obtain ⟨f, hf, howner⟩ := ih p hlt hu
          by_cases hcall : (t.kind p).isCallable = true
          · have hclosure : t.kind p = .closure := Kind.eq_closure hcall hunit
            rw [if_pos hcall]
            refine ⟨p, mem_framesWithin_of_mem_ownedClosures h (by omega) hf ?_, rfl⟩
            exact (mem_ownedClosures h).2 ⟨hclosure, howner⟩
          · rw [if_neg hcall]
            exact ⟨f, hf, howner⟩

/-- A method without a body has no variables. -/
theorem isAbstract_of_isLocalVariable (h : t.WellFormed) (hgrammar : t.Grammatical) (hv : t.isLocalVariable v = true)
    (hu : u ∈ t.ancestors v) : t.isAbstract u = false := by
  simp only [Tree.isLocalVariable, Bool.and_eq_true, beq_iff_eq] at hv
  cases habstract : t.isAbstract u with
  | false => rfl
  | true =>
    have hsignature := hgrammar.isSignature_below_abstract h habstract hu
    rw [hv.1] at hsignature
    cases hsignature

/-- The frames that are visited, each with the unit from which it is. -/
def visits (t : Tree) (nested : Bool) : List (Nat × Nat) :=
  t.units.flatMap fun u => if t.isAbstract u then [] else (frames t nested u).map fun f => (u, f)

theorem mem_visits (h : t.WellFormed) (hu : (t.kind u).isUnit = true) (hbody : t.isAbstract u = false)
    (hf : f ∈ frames t nested u) : (u, f) ∈ visits t nested := by
  refine List.mem_flatMap.2 ⟨u, h.mem_units.2 hu, ?_⟩
  rw [hbody]
  exact List.mem_map_of_mem hf

/-- No frame is visited twice. -/
theorem nodup_visits (h : t.WellFormed) (nested : Bool) : ((visits t nested).map Prod.snd).Nodup := by
  refine List.Nodup.sublist ?_ (nodup_frames_of_units h nested)
  rw [visits, List.map_flatMap]
  apply List.Sublist.flatMap_right
  intro u _
  split_ifs
  · exact List.nil_sublist _
  · have hsame : ((frames t nested u).map fun f => (u, f)).map Prod.snd = frames t nested u := by
      rw [List.map_map]
      exact List.map_id _
    rw [hsame]

theorem filter_fst_eq {visitsFrom : Nat → List (Nat × Nat)} (hfrom : ∀ w, ∀ visit ∈ visitsFrom w, visit.1 = w)
    {units : List Nat} (hnodup : units.Nodup) (hu : u ∈ units) :
    (units.flatMap visitsFrom).filter (fun visit => visit.1 == u) = visitsFrom u := by
  have hothers : ∀ rest : List Nat, u ∉ rest → (rest.flatMap visitsFrom).filter (fun visit => visit.1 == u) = [] := by
    intro rest hnot
    rw [List.filter_eq_nil_iff]
    intro visit hvisit heq
    obtain ⟨w, hw, hvisit⟩ := List.mem_flatMap.1 hvisit
    rw [beq_iff_eq, hfrom w visit hvisit] at heq
    exact hnot (heq ▸ hw)
  induction units with
  | nil => cases hu
  | cons w rest ih =>
    rw [List.nodup_cons] at hnodup
    rw [List.flatMap_cons, List.filter_append]
    by_cases heq : w = u
    · subst heq
      rw [hothers rest hnodup.1, List.append_nil, List.filter_eq_self]
      exact fun visit hvisit => beq_iff_eq.2 (hfrom w visit hvisit)
    · have hnone : (visitsFrom w).filter (fun visit => visit.1 == u) = [] := by
        rw [List.filter_eq_nil_iff]
        intro visit hvisit
        rwa [beq_iff_eq, hfrom w visit hvisit]
      rw [hnone, List.nil_append]
      exact ih hnodup.2 ((List.mem_cons.1 hu).resolve_left (Ne.symm heq))

/-- The rule looks at a unit by way of the visits from it: one after the other, each in its own frame. -/
theorem apply_eq_visits (h : t.WellFormed) (hu : u ∈ t.units) (options : Options) :
    (Rule.undefinedVariable.apply t u options).value =
      (((visits t (Settings.ofOptions options).value.analyzeClosures).filter fun visit => visit.1 == u).mapM
        fun visit => undefinedIn t (Settings.ofOptions options).value visit.2).map
      fun found => found.flatten.map (Rule.undefinedVariable.violationAt t) := by
  have hfrom : ∀ w, ∀ visit ∈ if t.isAbstract w then []
      else (frames t (Settings.ofOptions options).value.analyzeClosures w).map fun f => (w, f), visit.1 = w := by
    intro w visit hvisit
    split_ifs at hvisit
    · cases hvisit
    · obtain ⟨f, -, rfl⟩ := List.mem_map.1 hvisit
      rfl
  rw [visits, filter_fst_eq hfrom h.nodup_units hu, Rule.apply.eq_def]
  cases t.isAbstract u with
  | true => rfl
  | false =>
    simp only [Bool.false_eq_true, if_false, List.mapM_map]
    rfl

theorem filter_snd_eq {visited : List (Nat × Nat)} (hnodup : (visited.map Prod.snd).Nodup)
    (hmem : (u, f) ∈ visited) : visited.filter (fun visit => visit.2 == f) = [(u, f)] := by
  induction visited with
  | nil => cases hmem
  | cons visit rest ih =>
    rw [List.map_cons, List.nodup_cons] at hnodup
    rcases List.mem_cons.1 hmem with rfl | hmem
    · rw [List.filter_cons_of_pos (by simp), List.filter_eq_nil_iff.2]
      intro other hother heq
      rw [beq_iff_eq] at heq
      exact hnodup.1 (List.mem_map.2 ⟨other, hother, heq⟩)
    · have hne : visit.2 ≠ f := by
        intro heq
        exact hnodup.1 (List.mem_map.2 ⟨(u, f), hmem, heq.symm⟩)
      rw [List.filter_cons_of_neg (by simpa using hne)]
      exact ih hnodup.2 hmem

end UndefinedVariable

theorem enclosingUnit_of_mem_ancestors (hp : p ∈ t.ancestors i) (hunit : (t.kind p).isUnit = true) :
    ∃ u, UnreachableCode.enclosingUnit t i = some u := by
  apply Option.isSome_iff_exists.1
  exact List.find?_isSome.2 ⟨p, hp, hunit⟩

/-- Over all functions and methods of a tree no node is reported twice. What is said of undefined variables in a
function or method is what is found at the visits from it. In a program, if closures are looked at, every variable in a
function or method belongs to exactly one of the frames that are visited, and that frame is visited once, from the
nearest function or method around the variable. -/
theorem reads_analysed_once :
    (∀ t : Tree, t.Built → ∀ (r : Rule) (o : Options), (r.reportedNodes t o).Nodup) ∧
    (∀ t : Tree, t.Built → ∀ u ∈ t.units, ∀ o : Options,
      (Rule.undefinedVariable.apply t u o).value =
        (((UndefinedVariable.visits t (UndefinedVariable.Settings.ofOptions o).value.analyzeClosures).filter
            fun visit => visit.1 == u).mapM
          fun visit => UndefinedVariable.undefinedIn t (UndefinedVariable.Settings.ofOptions o).value visit.2).map
        fun found => found.flatten.map (Rule.undefinedVariable.violationAt t)) ∧
    ∀ (source : Source) (statements : List Php.Stmt) (o : Options),
      (UndefinedVariable.Settings.ofOptions o).value.analyzeClosures = true →
      ∀ v, (Php.treeOf source statements).isLocalVariable v = true →
        (∃ a ∈ (Php.treeOf source statements).ancestors v, ((Php.treeOf source statements).kind a).isUnit = true) →
        ∃ u f, UnreachableCode.enclosingUnit (Php.treeOf source statements) v = some u ∧
          UndefinedVariable.owningScope (Php.treeOf source statements) v = some f ∧
          v ∈ UndefinedVariable.locals (Php.treeOf source statements) f ∧
          (UndefinedVariable.visits (Php.treeOf source statements)
              (UndefinedVariable.Settings.ofOptions o).value.analyzeClosures).filter
            (fun visit => UndefinedVariable.owningScope (Php.treeOf source statements) v == some visit.2) =
              [(u, f)] := by
  refine ⟨?_, ?_, ?_⟩
  · intro t hbuilt r o
    exact r.nodup_reportedNodes hbuilt.wellFormed o
  · intro t hbuilt u hu o
    exact UndefinedVariable.apply_eq_visits hbuilt.wellFormed hu o
  · intro source statements o hnested v hlocal habove
    have hwf := Php.wellFormed_treeOf source statements
    have hgrammar := Php.grammatical_treeOf source statements
    obtain ⟨a, ha, hunit⟩ := habove
    obtain ⟨u, hu⟩ := enclosingUnit_of_mem_ancestors ha hunit
    obtain ⟨f, hf, howner⟩ := UndefinedVariable.owningScope_mem_frames hwf hgrammar hu
    obtain ⟨huv, hunit⟩ := UnreachableCode.mem_ancestors_of_enclosingUnit hu
    have hbody := UndefinedVariable.isAbstract_of_isLocalVariable hwf hgrammar hlocal huv
    have hvisit := UndefinedVariable.mem_visits hwf hunit hbody hf
    refine ⟨u, f, hu, howner, (UndefinedVariable.mem_locals hwf).2 ⟨hlocal, howner⟩, ?_⟩
    rw [hnested, howner]
    have hfilter := UndefinedVariable.filter_snd_eq (UndefinedVariable.nodup_visits hwf true) hvisit
    rw [← hfilter]
    apply List.filter_congr
    intro visit _
    rw [Bool.eq_iff_iff, beq_iff_eq, beq_iff_eq, Option.some_inj, eq_comm]

/-- A closure in a closure, the outer one with a `use` clause. -/
def nestedClosures : String :=
  "<?php function f() { return function () use (&$x) { return function ($y) { throw $x; }; }; }"

def nestedClosuresTree : Tree :=
  Php.treeOf (Source.ofText nestedClosures) (Php.Program.ofText nestedClosures).statements

theorem reads_analysed_once_nestedClosures :
    (nestedClosuresTree.Built ∧ (Rule.undefinedVariable.reportedNodes nestedClosuresTree (.empty "")).Nodup) ∧
    (2 ∈ nestedClosuresTree.units ∧
      (Rule.undefinedVariable.apply nestedClosuresTree 2 (.empty "")).value =
        (((UndefinedVariable.visits nestedClosuresTree
            (UndefinedVariable.Settings.ofOptions (.empty "")).value.analyzeClosures).filter
            fun visit => visit.1 == 2).mapM
          fun visit => UndefinedVariable.undefinedIn nestedClosuresTree
            (UndefinedVariable.Settings.ofOptions (.empty "")).value visit.2).map
        fun found => found.flatten.map (Rule.undefinedVariable.violationAt nestedClosuresTree)) ∧
    (UndefinedVariable.Settings.ofOptions (.empty "")).value.analyzeClosures = true ∧
    nestedClosuresTree.isLocalVariable 10 = true ∧
    (∃ a ∈ nestedClosuresTree.ancestors 10, (nestedClosuresTree.kind a).isUnit = true) ∧
    ∃ u f, UnreachableCode.enclosingUnit nestedClosuresTree 10 = some u ∧
      UndefinedVariable.owningScope nestedClosuresTree 10 = some f ∧
      10 ∈ UndefinedVariable.locals nestedClosuresTree f ∧
      (UndefinedVariable.visits nestedClosuresTree
          (UndefinedVariable.Settings.ofOptions (.empty "")).value.analyzeClosures).filter
        (fun visit => UndefinedVariable.owningScope nestedClosuresTree 10 == some visit.2) = [(u, f)] := by
  have hbuilt : nestedClosuresTree.Built := Php.built_treeOf _ _
  have hunit : 2 ∈ nestedClosuresTree.units := by decide +kernel
  have hnested : (UndefinedVariable.Settings.ofOptions (.empty "")).value.analyzeClosures = true := by decide +kernel
  have hlocal : nestedClosuresTree.isLocalVariable 10 = true := by decide +kernel
  have habove : ∃ a ∈ nestedClosuresTree.ancestors 10, (nestedClosuresTree.kind a).isUnit = true := by decide +kernel
  exact ⟨⟨hbuilt, reads_analysed_once.1 _ hbuilt .undefinedVariable (.empty "")⟩,
    ⟨hunit, reads_analysed_once.2.1 _ hbuilt 2 hunit (.empty "")⟩, hnested, hlocal, habove,
    reads_analysed_once.2.2 (Source.ofText nestedClosures) (Php.Program.ofText nestedClosures).statements (.empty "")
      hnested 10 hlocal habove⟩

end PhpInspect
