import PhpInspect.Proofs.Outcome
import PhpInspect.Proofs.Php.AnalysisTree
import PhpInspect.Proofs.Rule.Frames
import PhpInspect.Proofs.Rule.Terminators
import PhpInspect.Proofs.Tree.Embedding
import PhpInspect.Rule.Apply

/-! # Rules and renumbering

A rule sees nothing of a tree but what stands below the function or method that it looks at. So where a tree stands
inside another, a rule finds the same in both, with the numbers of the nodes shifted.
-/

namespace PhpInspect

variable {t t' : Tree} {k i p u d f v o : Nat}

/-- A violation whose node has its number shifted. -/
def Violation.shift (k : Nat) (v : Violation) : Violation := { v with node := v.node + k }

theorem Tree.WellFormed.inner_of_isUnit (h : t.WellFormed) (hu : (t.kind u).isUnit = true) : t.Inner u :=
  h.inner_of_kind (kind_ne_program_of_isUnit hu)

namespace Tree.Embeds

variable (e : t.Embeds t' k)

include e

theorem violationAt (hi : t.Inner i) (r : Rule) : r.violationAt t' (i + k) = (r.violationAt t i).shift k := by
  rw [Rule.violationAt, Rule.violationAt, e.beginLine hi, e.endLine hi, e.image hi, Violation.shift]

theorem isFirstChild (hp : t.parent i = some p) (hinner : t.Inner p) :
    t'.isFirstChild (i + k) = t.isFirstChild i := by
  rw [Tree.isFirstChild, Tree.isFirstChild, e.indexInParent hp hinner]

theorem parentOf (hp : t.parent i = some p) (hinner : t.Inner p) : t'.parentOf (i + k) = .ok (p + k) :=
  Tree.parentOf_eq_ok_iff.2 (e.parent hp hinner)

theorem requireChild (hi : t.Inner i) (kind : Kind) :
    t'.requireChild (i + k) kind = (t.requireChild i kind).map (· + k) := by
  rw [Tree.requireChild, Tree.requireChild, e.firstChildOfKind hi, e.kind hi, e.beginLine hi]
  cases t.firstChildOfKind i kind <;> rfl

/-- A node below a unit has a parent, with the same place among its children in both trees. -/
theorem parent_below (hu : t.Inner u) (hd : u ∈ t.ancestors d) :
    ∃ p, t.parent d = some p ∧ t.Inner p ∧ t.parentOf d = .ok p ∧ t'.parentOf (d + k) = .ok (p + k) ∧
      t'.isFirstChild (d + k) = t.isFirstChild d := by
  obtain ⟨p, hp, hcase⟩ := e.inner.parent_of_mem_ancestors hd
  have hinner : t.Inner p := by
    rcases hcase with rfl | hup
    · exact hu
    · exact e.inner.inner_of_mem_ancestors hup
  exact ⟨p, hp, hinner, Tree.parentOf_eq_ok_iff.2 hp, e.parentOf hp hinner, e.isFirstChild hp hinner⟩

end Tree.Embeds

namespace UndefinedVariable

/-! ### Definitions -/

theorem isElementWriteWithin_eq (h : t.WellFormed) {m n : Nat} (i : Nat) (hm : i < m) (hn : i < n) :
    isElementWriteWithin t m i = isElementWriteWithin t n i := by
  induction i using Nat.strongRecOn generalizing m n with
  | ind i ih =>
    obtain ⟨m, rfl⟩ : ∃ m', m = m' + 1 := ⟨m - 1, by omega⟩
    obtain ⟨n, rfl⟩ : ∃ n', n = n' + 1 := ⟨n - 1, by omega⟩
    rw [isElementWriteWithin, isElementWriteWithin]
    cases hp : t.parent i with
    | none => rw [Tree.parentOf, hp]; rfl
    | some p =>
      have hlt := h.parent_lt i p hp
      have hparent : t.parentOf i = .ok p := Tree.parentOf_eq_ok_iff.2 hp
      simp only [hparent, bind, Except.bind]
      have hsame : isElementWriteWithin t m p = isElementWriteWithin t n p := ih p hlt (by omega) (by omega)
      rw [hsame]

variable (e : t.Embeds t' k) (hu : (t.kind u).isUnit = true)

include e hu

theorem isElementWriteWithin_shift (n : Nat) (hi : u ∈ t.ancestors i) :
    isElementWriteWithin t' n (i + k) = isElementWriteWithin t n i := by
  induction n generalizing i with
  | zero => rfl
  | succ n ih =>
    obtain ⟨p, hp, hinner, hparent, hparent', hfirst⟩ := e.parent_below (e.inner.inner_of_isUnit hu) hi
    simp only [isElementWriteWithin, hparent, hparent', hfirst, bind, Except.bind, e.kind hinner]
    split
    · next hkind => rw [ih (e.inner.mem_ancestors_of_parent hu hi hp (by rw [hkind]; rfl))]
    all_goals rfl

theorem isElementWrite_shift (hi : u ∈ t.ancestors i) : isElementWrite t' (i + k) = isElementWrite t i := by
  have hinner := (e.inner.inner_of_mem_ancestors hi).2
  have hsize := e.size_le
  rw [isElementWrite, isElementWrite, isElementWriteWithin_shift e hu _ hi]
  exact isElementWriteWithin_eq e.inner i (by omega) hinner

theorem isDefinition_shift (hv : u ∈ t.ancestors v) : isDefinition t' (v + k) = isDefinition t v := by
  obtain ⟨p, hp, hinner, hparent, hparent', hfirst⟩ := e.parent_below (e.inner.inner_of_isUnit hu) hv
  simp only [isDefinition, hparent, hparent', hfirst, bind, Except.bind, e.kind hinner]
  have hup : (t.kind p).isUnit = false → u ∈ t.ancestors p := e.inner.mem_ancestors_of_parent hu hv hp
  split
  · rfl
  · rfl
  · rfl
  · rfl
  · rfl
  · rfl
  · next hkind =>
    obtain ⟨above, habove, hinner', -, -, hfirst'⟩ :=
      e.parent_below (e.inner.inner_of_isUnit hu) (hup (by rw [hkind]; rfl))
    rw [habove, e.parent habove hinner', hfirst']
    simp only [e.kind hinner']
  · next hkind => rw [isElementWrite_shift e hu (hup (by rw [hkind]; rfl))]
  · rfl

theorem isPregMatchOutput_shift (hv : u ∈ t.ancestors v) : isPregMatchOutput t' (v + k) = isPregMatchOutput t v := by
  obtain ⟨arguments, hp, hinner, hparent, hparent', -⟩ := e.parent_below (e.inner.inner_of_isUnit hu) hv
  simp only [isPregMatchOutput, hparent, hparent', bind, Except.bind, e.kind hinner]
  split_ifs with hkind
  · rfl
  · rw [bne_iff_ne, ne_eq, not_not] at hkind
    have hup := e.inner.mem_ancestors_of_parent hu hv hp (by rw [hkind]; rfl)
    obtain ⟨call, -, hinner', hcall, hcall', -⟩ := e.parent_below (e.inner.inner_of_isUnit hu) hup
    have hthird : (t'.child? (arguments + k) 2 == some (v + k)) = (t.child? arguments 2 == some v) := by
      rw [e.child? hinner]
      cases t.child? arguments 2 <;> simp
    simp only [hcall, hcall', e.kind hinner', e.image hinner', e.children arguments hinner, List.length_map, hthird]

omit e hu

/-! ### Frames -/

theorem nearestFrame_shift (inUse : Bool) {way above above' : List Nat}
    (hway : ∀ a ∈ way, t'.kind (a + k) = t.kind a) (hf : f ∉ above) (hf' : f + k ∉ above') :
    nearestFrame t' inUse (way.map (· + k) ++ above') = some (f + k) ↔
      nearestFrame t inUse (way ++ above) = some f := by
  induction way generalizing inUse with
  | nil =>
    constructor
    · exact fun h => absurd (mem_of_nearestFrame h) hf'
    · exact fun h => absurd (mem_of_nearestFrame h) hf
  | cons a way ih =>
    have ih' := fun inUse => ih inUse fun b hb => hway b (List.mem_cons_of_mem _ hb)
    rw [List.map_cons, List.cons_append, List.cons_append, nearestFrame, nearestFrame, hway a List.mem_cons_self]
    split_ifs
    · exact ih' true
    · exact ih' false
    · rw [Option.some_inj, Option.some_inj, Nat.add_right_cancel_iff]
    · exact ih' inUse

include e hu

theorem owningScope_shift (hd : u ∈ t.ancestors d) (hf : u ≤ f) :
    owningScope t' (d + k) = some (f + k) ↔ owningScope t d = some f := by
  have hinner := e.inner.inner_of_isUnit hu
  obtain ⟨way, hway, hbelow, habove⟩ := e.ancestors hinner hd
  rw [owningScope, owningScope, hbelow, habove]
  have hkinds : ∀ a ∈ way ++ [u], t'.kind (a + k) = t.kind a := by
    intro a ha
    rcases List.mem_append.1 ha with ha | ha
    · exact e.kind (hway a ha)
    · rw [List.mem_singleton.1 ha]
      exact e.kind hinner
  have hout : f ∉ t.ancestors u := by
    intro hmem
    have hlt := e.inner.lt_of_mem_ancestors hmem
    omega
  have hout' : f + k ∉ t'.ancestors (u + k) := by
    intro hmem
    have hlt := e.outer.lt_of_mem_ancestors hmem
    omega
  simpa using nearestFrame_shift false hkinds hout hout'

theorem owned_shift (hf : f ∈ t.subtree u) (kind : Kind) :
    (t'.descendantsOfKind (f + k) kind).filter (fun d => owningScope t' d == some (f + k)) =
      ((t.descendantsOfKind f kind).filter fun d => owningScope t d == some f).map (· + k) := by
  have hinner := e.inner.inner_of_mem_subtree (e.inner.inner_of_isUnit hu) hf
  rw [e.descendantsOfKind hinner]
  apply Tree.filter_map_congr
  intro d hd
  have hfd : f ∈ t.ancestors d := e.inner.mem_descendants.1 (List.mem_of_mem_filter hd)
  have hud : u ∈ t.ancestors d := e.inner.mem_ancestors_of_mem_subtree hf hfd
  rw [Bool.eq_iff_iff, beq_iff_eq, beq_iff_eq]
  exact owningScope_shift e hu hud (e.inner.le_of_mem_subtree hf)

theorem ownedClosures_shift (hf : f ∈ t.subtree u) :
    ownedClosures t' (f + k) = (ownedClosures t f).map (· + k) := owned_shift e hu hf .closure

theorem locals_shift (hf : f ∈ t.subtree u) : locals t' (f + k) = (locals t f).map (· + k) := by
  have hsplit : ∀ (s : Tree) (g : Nat), locals s g =
      ((s.descendantsOfKind g .var).filter fun d => owningScope s d == some g).filter s.isLocalVariable := by
    intro s g
    rw [locals, List.filter_filter]
  rw [hsplit, hsplit, owned_shift e hu hf]
  apply Tree.filter_map_congr
  intro d hd
  have hfd : f ∈ t.ancestors d := e.inner.mem_descendants.1 (List.mem_of_mem_filter (List.mem_of_mem_filter hd))
  have hd' := e.inner.inner_of_mem_ancestors hfd
  rw [Tree.isLocalVariable, Tree.isLocalVariable, e.kind hd', e.image hd']

theorem framesWithin_shift {nested : Bool} (depth : Nat) (hf : f ∈ t.subtree u) :
    framesWithin t' nested depth (f + k) = (framesWithin t nested depth f).map (· + k) := by
  induction depth generalizing f with
  | zero => rfl
  | succ depth ih =>
    rw [framesWithin, framesWithin, List.map_cons]
    cases nested with
    | false => rfl
    | true =>
      simp only [if_true]
      rw [ownedClosures_shift e hu hf, List.flatMap_map, List.map_flatMap]
      congr 1
      exact List.flatMap_congr fun c hc =>
        ih (e.inner.mem_subtree_trans hf (mem_subtree_of_mem_ownedClosures e.inner hc))

theorem frames_shift (nested : Bool) : frames t' nested (u + k) = (frames t nested u).map (· + k) := by
  have hinner := e.inner.inner_of_isUnit hu
  have hsize := e.size_le
  have hpos := hinner.1
  have hlt := hinner.2
  rw [frames, frames, framesWithin_shift e hu _ (e.inner.self_mem_subtree u)]
  congr 1
  exact framesWithin_eq e.inner hlt (by omega) (by omega)

/-! ### Undefined variables -/

omit hu

theorem parameterNames_shift (hf : t.Inner f) : parameterNames t' (f + k) = parameterNames t f := by
  rw [parameterNames, parameterNames, e.requireChild hf]
  cases hlist : t.requireChild f .formalParameters with
  | error error => rfl
  | ok list =>
    have hinner : t.Inner list := by
      rw [Tree.requireChild] at hlist
      split at hlist
      · next c hc =>
        cases hlist
        exact e.inner.inner_of_mem_children (List.mem_of_find?_eq_some hc)
      · cases hlist
    simp only [Except.map, bind, Except.bind, e.descendantsOfKind hinner, List.map_map]
    congr 1
    apply List.map_congr_left
    intro d hd
    exact e.image (e.inner.inner_of_mem_ancestors (e.inner.mem_descendants.1 (List.mem_of_mem_filter hd)))

theorem capturedNames_shift (hf : t.Inner f) : capturedNames t' (f + k) = capturedNames t f := by
  rw [capturedNames, capturedNames, e.kind hf, e.firstChildOfKind hf]
  split_ifs
  · cases huses : t.firstChildOfKind f .closureUse with
    | none => rfl
    | some uses =>
      have hinner : t.Inner uses := e.inner.inner_of_mem_children (List.mem_of_find?_eq_some huses)
      simp only [Option.map_some, e.descendantsOfKind hinner, List.map_map]
      apply List.map_congr_left
      intro d hd
      exact e.image (e.inner.inner_of_mem_ancestors (e.inner.mem_descendants.1 (List.mem_of_mem_filter hd)))
  · rfl

theorem firstOfImage_shift (seen : List String) {vs : List Nat} (hvs : ∀ v ∈ vs, t.Inner v) :
    firstOfImage t' seen (vs.map (· + k)) = (firstOfImage t seen vs).map (· + k) := by
  induction vs generalizing seen with
  | nil => rfl
  | cons v vs ih =>
    have ih' := fun seen => ih seen fun w hw => hvs w (List.mem_cons_of_mem _ hw)
    rw [List.map_cons, firstOfImage, firstOfImage, e.image (hvs v List.mem_cons_self)]
    split_ifs
    · exact ih' seen
    · rw [ih', List.map_cons]

include hu

theorem unbound_shift (bound : List String) (hf : f ∈ t.subtree u) :
    (firstOfImage t' [] (locals t' (f + k))).filter (fun v => !bound.contains (t'.image v)) =
      ((firstOfImage t [] (locals t f)).filter fun v => !bound.contains (t.image v)).map (· + k) := by
  have hlocals : ∀ v ∈ locals t f, t.Inner v := fun v hv =>
    e.inner.inner_of_mem_ancestors (mem_ancestors_of_owningScope ((mem_locals e.inner).1 hv).2)
  rw [locals_shift e hu hf, firstOfImage_shift e [] hlocals]
  apply Tree.filter_map_congr
  intro v hv
  rw [e.image (hlocals v ((firstOfImage_sublist [] _).subset hv))]

theorem undefinedIn_shift (settings : Settings) (hf : f ∈ t.subtree u) :
    undefinedIn t' settings (f + k) = (undefinedIn t settings f).map (List.map (· + k)) := by
  have hinner := e.inner.inner_of_mem_subtree (e.inner.inner_of_isUnit hu) hf
  have hparameters : parameterNames t' (f + k) = (parameterNames t f).map id := by
    rw [parameterNames_shift e hinner]
    cases parameterNames t f <;> rfl
  refine bind_map id _ hparameters fun parameters _ => ?_
  dsimp only [id_eq]
  rw [capturedNames_shift e hinner, unbound_shift e hu _ hf]
  generalize hunbound : (firstOfImage t [] (locals t f)).filter (fun v =>
    !(parameters ++ capturedNames t f).contains (t.image v)) = unbound
  have hbelow : ∀ v ∈ unbound, u ∈ t.ancestors v := by
    intro v hv
    rw [← hunbound] at hv
    have hlocal := (mem_locals e.inner).1 ((firstOfImage_sublist [] _).subset (List.mem_of_mem_filter hv))
    exact e.inner.mem_ancestors_of_mem_subtree hf (mem_ancestors_of_owningScope hlocal.2)
  refine bind_map (List.map (· + k)) _ (filterM_map _ fun v hv => ?_) fun undefined hundefined => ?_
  · rw [isDefinition_shift e hu (hbelow v hv)]
  · split_ifs
    · refine filterM_map _ fun v hv => ?_
      rw [isPregMatchOutput_shift e hu (hbelow v ((sublist_of_filterM hundefined).subset hv))]
    · rfl

theorem report_shift (settings : Settings) :
    report t' settings (u + k) = (report t settings u).map (List.map (Violation.shift k)) := by
  rw [report, report, frames_shift e hu]
  have hframes : ∀ f ∈ frames t settings.analyzeClosures u,
      undefinedIn t' settings (f + k) = (undefinedIn t settings f).map (List.map (· + k)) := fun f hf =>
    undefinedIn_shift e hu settings (mem_subtree_of_mem_framesWithin e.inner hf)
  refine bind_map _ _ (mapM_map (· + k) (List.map (· + k)) hframes) fun found hfound => ?_
  have hinner : ∀ v ∈ found.flatten, t.Inner v := by
    intro v hv
    obtain ⟨vs, hvs, hv⟩ := List.mem_flatten.1 hv
    obtain ⟨f, -, hf⟩ := exists_of_mem_mapM hfound hvs
    have hlocal := (mem_locals e.inner).1 ((sublist_of_undefinedIn hf).subset hv)
    exact e.inner.inner_of_mem_ancestors (mem_ancestors_of_owningScope hlocal.2)
  have hviolations : ((found.map (List.map (· + k))).flatten).map (Rule.undefinedVariable.violationAt t') =
      (found.flatten.map (Rule.undefinedVariable.violationAt t)).map (Violation.shift k) := by
    rw [← List.map_flatten, List.map_map, List.map_map]
    exact List.map_congr_left fun v hv => e.violationAt (hinner v hv) _
  rw [hviolations]
  rfl

end UndefinedVariable

namespace UnreachableCode

variable {block attempt : Nat} (e : t.Embeds t' k)

include e

/-! ### Finality by lines -/

theorem endsWith_shift (hscope : t.Inner p) (hi : t.Inner i) : endsWith t' (p + k) (i + k) = endsWith t p i := by
  rw [endsWith, endsWith, e.endLine hscope, e.endLine hi]

variable (hu : (t.kind u).isUnit = true)

include hu

theorem above_shift {kind : Kind} {test test' : Nat → Except RuleError Bool} (hkind : kind.isUnit = false)
    (hi : u ∈ t.ancestors i) (hblock : t.parent i = some block) (hinner : t.Inner block)
    (htest : ∀ p, t.parent block = some p → t.Inner p → u ∈ t.ancestors block → test' (p + k) = test p) :
    above t' kind (block + k) test' = above t kind block test := by
  rw [above, above, e.kind hinner]
  split_ifs with hsame
  · rw [beq_iff_eq] at hsame
    have hup := e.inner.mem_ancestors_of_parent hu hi hblock (by rw [hsame]; exact hkind)
    obtain ⟨p, hp, hinner', hparent, hparent', -⟩ := e.parent_below (e.inner.inner_of_isUnit hu) hup
    rw [hparent, hparent']
    exact htest p hp hinner' hup
  · rfl

theorem endsOuter_shift (ha : u ∈ t.ancestors attempt) : endsOuter t' (attempt + k) = endsOuter t attempt := by
  obtain ⟨p, -, hinner, hparent, hparent', -⟩ := e.parent_below (e.inner.inner_of_isUnit hu) ha
  rw [endsOuter, endsOuter, hparent, hparent']
  exact congrArg Except.ok (endsWith_shift e hinner (e.inner.inner_of_mem_ancestors ha))

theorem endsTry_shift (hi : u ∈ t.ancestors i) (hblock : t.parent i = some block) (hinner : t.Inner block) :
    endsTry t' (block + k) (i + k) = endsTry t block i := by
  refine above_shift e hu rfl hi hblock hinner fun attempt hattempt hinner' hup => ?_
  rw [e.kind hinner', endsWith_shift e hinner (e.inner.inner_of_parent hblock), e.firstChildOfKind hinner',
    Option.isSome_map]
  split_ifs with htest
  · rfl
  · rfl
  · have hkind : t.kind attempt = .tryStatement := kind_eq_of_not_bne_or htest
    exact endsOuter_shift e hu (e.inner.mem_ancestors_of_parent hu hup hattempt (by rw [hkind]; rfl))

theorem endsFinally_shift (hgrammar : t.Grammatical) (hi : u ∈ t.ancestors i) (hblock : t.parent i = some block)
    (hinner : t.Inner block) : endsFinally t' (block + k) (i + k) = endsFinally t block i := by
  refine above_shift e hu rfl hi hblock hinner fun final hfinal hinner' hup => ?_
  rw [e.kind hinner', endsWith_shift e hinner (e.inner.inner_of_parent hblock)]
  split_ifs with htest
  · rfl
  · have hkind : t.kind final = .finallyStatement := kind_eq_of_not_bne_or htest
    have hup' := e.inner.mem_ancestors_of_parent hu hup hfinal (by rw [hkind]; rfl)
    obtain ⟨attempt, hattempt, -, hparent, hparent', -⟩ := e.parent_below (e.inner.inner_of_isUnit hu) hup'
    have htry := hgrammar.kind_parent_of_finallyStatement e.inner hkind hattempt
    rw [hparent, hparent']
    exact endsOuter_shift e hu (e.inner.mem_ancestors_of_parent hu hup' hattempt (by rw [htry]; rfl))

theorem endsItsBlock_shift (hgrammar : t.Grammatical) (hi : u ∈ t.ancestors i) :
    endsItsBlock t' (u + k) (i + k) = endsItsBlock t u i := by
  have hunit := e.inner.inner_of_isUnit hu
  have hi' := e.inner.inner_of_mem_ancestors hi
  obtain ⟨block, hblock, hinner, hparent, hparent', -⟩ := e.parent_below hunit hi
  have hends : endsWith t' (block + k) (i + k) = endsWith t block i := endsWith_shift e hinner hi'
  have hbranch : endsBranch t' (block + k) (i + k) = endsBranch t block i :=
    above_shift e hu rfl hi hblock hinner fun p _ hp _ => by rw [e.kind hp, hends]
  have hcase : endsCase t' (block + k) (i + k) = endsCase t block i :=
    above_shift e hu rfl hi hblock hinner fun p _ hp _ => by rw [e.kind hp, e.endLine hi', e.endLine hinner]
  have hcatch : endsCatch t' (block + k) (i + k) = endsCatch t block i :=
    above_shift e hu rfl hi hblock hinner fun p _ hp _ => by rw [e.kind hp, hends]
  have hclosure : endsClosure t' (block + k) (i + k) = endsClosure t block i :=
    above_shift e hu rfl hi hblock hinner fun p _ hp _ => by rw [e.kind hp, hends]
  have hwhole : endsUnit t' (u + k) (block + k) (i + k) = endsUnit t u block i := by
    rw [endsUnit, endsUnit, e.kind hinner, endsWith_shift e hunit hi']
  rw [endsItsBlock, endsItsBlock, hparent, hparent']
  simp only [bind, Except.bind, hwhole, hbranch, hcase, endsTry_shift e hu hi hblock hinner, hcatch,
    endsFinally_shift e hu hgrammar hi hblock hinner, hclosure]

/-! ### Unreachable code -/

theorem enclosingUnit_shift (hi : u ∈ t.ancestors i) :
    enclosingUnit t' (i + k) = (enclosingUnit t i).map (· + k) := by
  have hinner := e.inner.inner_of_isUnit hu
  obtain ⟨way, hway, hbelow, habove⟩ := e.ancestors hinner hi
  have hfound : (way.map (· + k)).find? (fun a => (t'.kind a).isUnit) =
      (way.find? fun a => (t.kind a).isUnit).map (· + k) :=
    Tree.find?_map_congr (· + k) fun a ha => by rw [e.kind (hway a ha)]
  rw [enclosingUnit_of_ancestors hbelow hu, enclosingUnit_of_ancestors habove (by rw [e.kind hinner]; exact hu), hfound]
  cases way.find? fun a => (t.kind a).isUnit <;> rfl

theorem terminators_shift : terminators t' (u + k) = (terminators t u).map (· + k) := by
  rw [terminators, terminators, e.descendants (e.inner.inner_of_isUnit hu)]
  apply Tree.filter_map_congr
  intro i hi
  have hup := e.inner.mem_descendants.1 hi
  rw [e.kind (e.inner.inner_of_mem_ancestors hup), enclosingUnit_shift e hu hup]
  cases enclosingUnit t i with
  | none => rfl
  | some w =>
    rw [Option.map_some, Bool.eq_iff_iff]
    simp

theorem report_shift (hgrammar : t.Grammatical) (finality : Finality) :
    report t' finality (u + k) = (report t finality u).map (List.map (Violation.shift k)) := by
  rw [report, report, terminators_shift e hu]
  have hup : ∀ i ∈ terminators t u, u ∈ t.ancestors i := fun i hi =>
    (mem_ancestors_of_enclosingUnit ((mem_terminators e.inner).1 hi).2).1
  have hfinal : ∀ i ∈ terminators t u, isFinal t' finality (u + k) (i + k) = isFinal t finality u i := by
    intro i hi
    cases finality with
    | structural =>
      obtain ⟨p, hp, hinner, -⟩ := e.parent_below (e.inner.inner_of_isUnit hu) (hup i hi)
      rw [isFinal, isFinal, e.isLastChild hp hinner]
    | lines => exact endsItsBlock_shift e hu hgrammar (hup i hi)
  refine bind_map _ _ (filterM_map (· + k) fun i hi => by rw [hfinal i hi]) fun found hfound => ?_
  have hviolations : (found.map (· + k)).map (Rule.unreachableCode.violationAt t') =
      (found.map (Rule.unreachableCode.violationAt t)).map (Violation.shift k) := by
    rw [List.map_map, List.map_map]
    refine List.map_congr_left fun i hi => e.violationAt (e.inner.inner_of_mem_ancestors (hup i ?_)) _
    exact (sublist_of_filterM hfound).subset hi
  rw [hviolations]
  rfl

end UnreachableCode

/-! ### Rules -/

/-- A rule finds the same in a unit wherever the tree around it stands. -/
theorem Rule.apply_shift (e : t.Embeds t' k) (hgrammar : t.Grammatical) (hu : (t.kind u).isUnit = true) (r : Rule)
    (o : Options) : r.apply t' (u + k) o =
      ⟨(r.apply t u o).value.map (List.map (Violation.shift k)), (r.apply t u o).messages⟩ := by
  have hinner := e.inner.inner_of_isUnit hu
  rw [Rule.apply.eq_def, Rule.apply.eq_def, e.isAbstract hinner]
  cases t.isAbstract u with
  | true => rfl
  | false =>
    cases r with
    | undefinedVariable =>
      change (⟨UndefinedVariable.report t' (UndefinedVariable.Settings.ofOptions o).value (u + k),
        (UndefinedVariable.Settings.ofOptions o).messages ++ []⟩ : Logged _) = _
      rw [UndefinedVariable.report_shift e hu]
      rfl
    | unreachableCode =>
      simp only [Bool.false_eq_true, if_false, e.requireChild hinner]
      cases t.requireChild u .scope with
      | error error => rfl
      | ok c =>
        change (⟨UnreachableCode.report t' (Finality.ofOptions o).value (u + k),
          (Finality.ofOptions o).messages ++ []⟩ : Logged _) = _
        rw [UnreachableCode.report_shift e hu hgrammar]
        rfl

end PhpInspect
