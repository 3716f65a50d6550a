import PhpInspect.Proofs.Outcome
import PhpInspect.Proofs.Tree.Walk
import PhpInspect.Rule.UndefinedVariable

/-! # Frames

The frame that owns a node lies above it, so the frames of a tree form a forest: each closure hangs below the frame
that owns it. The frames found from a function or method are those of its tree in this forest, each once, and no
frame is found from two of them.
-/

namespace PhpInspect.UndefinedVariable

variable {t : Tree} {nested : Bool} {i a b c f g o u v depth m n : Nat}

/-! ### Owners -/

theorem mem_of_nearestFrame {above : List Nat} {inUse : Bool} (h : nearestFrame t inUse above = some a) :
    a ∈ above := by
  induction above generalizing inUse with
  | nil => cases h
  | cons b rest ih =>
    rw [nearestFrame] at h
    split_ifs at h
    · exact List.mem_cons_of_mem _ (ih h)
    · exact List.mem_cons_of_mem _ (ih h)
    · cases h
      exact List.mem_cons_self
    · exact List.mem_cons_of_mem _ (ih h)

theorem mem_ancestors_of_owningScope (h : owningScope t i = some o) : o ∈ t.ancestors i := mem_of_nearestFrame h

theorem lt_of_owningScope (hwf : t.WellFormed) (h : owningScope t i = some o) : o < i :=
  hwf.lt_of_mem_ancestors (mem_ancestors_of_owningScope h)

theorem mem_ownedClosures (hwf : t.WellFormed) :
    c ∈ ownedClosures t o ↔ t.kind c = .closure ∧ owningScope t c = some o := by
  rw [ownedClosures, Tree.descendantsOfKind, List.mem_filter, List.mem_filter, beq_iff_eq, beq_iff_eq]
  constructor
  · rintro ⟨⟨-, hkind⟩, howner⟩
    exact ⟨hkind, howner⟩
  · rintro ⟨hkind, howner⟩
    exact ⟨⟨hwf.mem_descendants.2 (mem_ancestors_of_owningScope howner), hkind⟩, howner⟩

theorem mem_subtree_of_mem_ownedClosures (hwf : t.WellFormed) (hc : c ∈ ownedClosures t o) : c ∈ t.subtree o :=
  hwf.mem_subtree.2 (.inr (mem_ancestors_of_owningScope ((mem_ownedClosures hwf).1 hc).2))

theorem nodup_ownedClosures (hwf : t.WellFormed) (o : Nat) : (ownedClosures t o).Nodup :=
  ((hwf.nodup_descendants o).filter _).filter _

theorem mem_locals (hwf : t.WellFormed) :
    i ∈ locals t o ↔ t.isLocalVariable i = true ∧ owningScope t i = some o := by
  simp only [locals, Tree.descendantsOfKind, List.mem_filter, Bool.and_eq_true, beq_iff_eq]
  constructor
  · exact fun h => h.2
  · rintro ⟨hlocal, howner⟩
    refine ⟨⟨hwf.mem_descendants.2 (mem_ancestors_of_owningScope howner), ?_⟩, hlocal, howner⟩
    simp only [Tree.isLocalVariable, Bool.and_eq_true, beq_iff_eq] at hlocal
    exact hlocal.1

theorem nodup_locals (hwf : t.WellFormed) (o : Nat) : (locals t o).Nodup :=
  ((hwf.nodup_descendants o).filter _).filter _

theorem firstOfImage_sublist (seen : List String) (vs : List Nat) : (firstOfImage t seen vs).Sublist vs := by
  induction vs generalizing seen with
  | nil => exact List.Sublist.refl []
  | cons v vs ih =>
    rw [firstOfImage]
    split_ifs
    · exact (ih seen).cons v
    · exact (ih _).cons_cons v

/-- What is undefined in a frame is among its variables. -/
theorem sublist_of_undefinedIn {settings : Settings} {vs : List Nat} (h : undefinedIn t settings o = .ok vs) :
    vs.Sublist (locals t o) := by
  obtain ⟨parameters, -, h⟩ := exists_of_bind_eq_ok h
  obtain ⟨undefined, hundefined, h⟩ := exists_of_bind_eq_ok h
  have hsub : undefined.Sublist (locals t o) :=
    ((sublist_of_filterM hundefined).trans List.filter_sublist).trans (firstOfImage_sublist [] _)
  split_ifs at h
  · exact (sublist_of_filterM h).trans hsub
  · cases h
    exact hsub

/-! ### The frames below a frame -/

theorem mem_framesWithin_succ : f ∈ framesWithin t nested (depth + 1) o ↔
    f = o ∨ nested = true ∧ ∃ c ∈ ownedClosures t o, f ∈ framesWithin t nested depth c := by
  rw [framesWithin, List.mem_cons]
  cases nested <;> simp

theorem closure_of_mem_framesWithin (hwf : t.WellFormed) (hf : f ∈ framesWithin t nested depth o) :
    f = o ∨ t.kind f = .closure := by
  induction depth generalizing o with
  | zero => cases hf
  | succ depth ih =>
    rcases mem_framesWithin_succ.1 hf with rfl | ⟨-, c, hc, hfc⟩
    · exact .inl rfl
    · rcases ih hfc with rfl | hkind
      · exact .inr ((mem_ownedClosures hwf).1 hc).1
      · exact .inr hkind

theorem mem_subtree_of_mem_framesWithin (hwf : t.WellFormed) (hf : f ∈ framesWithin t nested depth o) :
    f ∈ t.subtree o := by
  induction depth generalizing o with
  | zero => cases hf
  | succ depth ih =>
    rcases mem_framesWithin_succ.1 hf with rfl | ⟨-, c, hc, hfc⟩
    · exact hwf.self_mem_subtree f
    · exact hwf.mem_subtree_trans (mem_subtree_of_mem_ownedClosures hwf hc) (ih hfc)

theorem le_of_mem_framesWithin (hwf : t.WellFormed) (hf : f ∈ framesWithin t nested depth o) : o ≤ f :=
  hwf.le_of_mem_subtree (mem_subtree_of_mem_framesWithin hwf hf)

/-- The owner of a frame that was found is found as well. -/
theorem owner_mem_framesWithin (hwf : t.WellFormed) (hf : f ∈ framesWithin t nested depth o) :
    f = o ∨ ∃ g ∈ framesWithin t nested depth o, owningScope t f = some g := by
  induction depth generalizing o with
  | zero => cases hf
  | succ depth ih =>
    rcases mem_framesWithin_succ.1 hf with rfl | ⟨hnested, c, hc, hfc⟩
    · exact .inl rfl
    · right
      rcases ih hfc with rfl | ⟨g, hg, howner⟩
      · exact ⟨o, mem_framesWithin_succ.2 (.inl rfl), ((mem_ownedClosures hwf).1 hc).2⟩
      · exact ⟨g, mem_framesWithin_succ.2 (.inr ⟨hnested, c, hc, hg⟩), howner⟩

/-- Two frames neither of which is found from the other have no frame below them in common. -/
theorem disjoint_framesWithin (hwf : t.WellFormed) (ha : a ∉ framesWithin t nested n b)
    (hb : b ∉ framesWithin t nested m a) :
    (framesWithin t nested m a).Disjoint (framesWithin t nested n b) := by
  intro f hfa hfb
  induction f using Nat.strongRecOn with
  | ind f ih =>
    rcases owner_mem_framesWithin hwf hfa with rfl | ⟨g, hga, howner⟩
    · exact ha hfb
    · rcases owner_mem_framesWithin hwf hfb with rfl | ⟨g', hgb, howner'⟩
      · exact hb hfa
      · obtain rfl : g = g' := Option.some.inj (howner.symm.trans howner')
        exact ih g (lt_of_owningScope hwf howner) hga hgb

theorem not_mem_framesWithin_sibling (hwf : t.WellFormed) (hb : b ∈ ownedClosures t o)
    (hc : c ∈ ownedClosures t o) (hne : b ≠ c) : b ∉ framesWithin t nested n c := by
  intro hmem
  have hob := ((mem_ownedClosures hwf).1 hb).2
  have hlt := lt_of_owningScope hwf ((mem_ownedClosures hwf).1 hc).2
  rcases owner_mem_framesWithin hwf hmem with heq | ⟨g, hg, howner⟩
  · exact hne heq
  · obtain rfl : o = g := Option.some.inj (hob.symm.trans howner)
    have hle := le_of_mem_framesWithin hwf hg
    omega

theorem nodup_framesWithin (hwf : t.WellFormed) (depth o : Nat) : (framesWithin t nested depth o).Nodup := by
  induction depth generalizing o with
  | zero => exact List.nodup_nil
  | succ depth ih =>
    rw [framesWithin, List.nodup_cons]
    cases nested with
    | false => simp
    | true =>
      refine ⟨?_, ?_⟩
      · intro ho
        obtain ⟨c, hc, hoc⟩ := List.mem_flatMap.1 ho
        have hlt := lt_of_owningScope hwf ((mem_ownedClosures hwf).1 hc).2
        have hle := le_of_mem_framesWithin hwf hoc
        omega
      · refine List.nodup_flatMap.2 ⟨fun c _ => ih c, ?_⟩
        refine List.Pairwise.imp_of_mem ?_ (nodup_ownedClosures hwf o)
        intro b c hb hc hne
        exact disjoint_framesWithin hwf (not_mem_framesWithin_sibling hwf hb hc hne)
          (not_mem_framesWithin_sibling hwf hc hb (Ne.symm hne))

/-! ### The depth of frames -/

theorem lt_size_of_mem_ownedClosures (hwf : t.WellFormed) (hc : c ∈ ownedClosures t o) : c < t.size := by
  apply Tree.lt_size_of_kind
  rw [((mem_ownedClosures hwf).1 hc).1]
  decide

/-- A chain of frames from a node is no longer than the rest of the tree, so that a bound beyond it does not matter. -/
theorem framesWithin_eq (hwf : t.WellFormed) (ho : o < t.size) (hm : t.size ≤ m + o) (hn : t.size ≤ n + o) :
    framesWithin t nested m o = framesWithin t nested n o := by
  induction hk : t.size - o using Nat.strongRecOn generalizing o m n with
  | ind k ih =>
    obtain ⟨m, rfl⟩ : ∃ m', m = m' + 1 := ⟨m - 1, by omega⟩
    obtain ⟨n, rfl⟩ : ∃ n', n = n' + 1 := ⟨n - 1, by omega⟩
    rw [framesWithin, framesWithin]
    cases nested with
    | false => rfl
    | true =>
      simp only [if_true]
      congr 1
      apply List.flatMap_congr
      intro c hc
      have hlt := lt_of_owningScope hwf ((mem_ownedClosures hwf).1 hc).2
      have hsize := lt_size_of_mem_ownedClosures hwf hc
      exact ih (t.size - c) (by omega) hsize (by omega) (by omega) rfl

/-- The frames of a node are the node and, if wanted, the frames of the closures that it owns, in pre-order. -/
theorem frames_eq (hwf : t.WellFormed) (nested : Bool) (o : Nat) :
    frames t nested o = o :: if nested then (ownedClosures t o).flatMap (frames t nested) else [] := by
  have hpos := hwf.size_pos
  obtain ⟨depth, hdepth⟩ : ∃ d, t.size = d + 1 := ⟨t.size - 1, by omega⟩
  rw [frames, hdepth, framesWithin]
  cases nested with
  | false => rfl
  | true =>
    simp only [if_true]
    congr 1
    apply List.flatMap_congr
    intro c hc
    have hlt := lt_of_owningScope hwf ((mem_ownedClosures hwf).1 hc).2
    exact framesWithin_eq hwf (lt_size_of_mem_ownedClosures hwf hc) (by omega) (by omega)

end PhpInspect.UndefinedVariable
