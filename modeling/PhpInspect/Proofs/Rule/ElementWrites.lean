import PhpInspect.Proofs.Rule.Definitions

/-! # Writing through accesses

In `$a[1][2] = 3` one access is the base of the next, and the last one is what is assigned to. So the variable at the
bottom is written, however many accesses there are. What is assigned to an access does not reach into its index: what
stands there is written only by an assignment or a pattern inside of the index.
-/

namespace PhpInspect

variable {t : Tree} {place : Place} {i p q a v x c n : Nat}

namespace Tree

theorem WellFormed.parent_of_child? (h : t.WellFormed) (hchild : t.child? p n = some i) : t.parent i = some p :=
  (h.mem_children p i).1 (List.mem_of_getElem? hchild)

theorem WellFormed.isFirstChild_iff (h : t.WellFormed) (hp : t.parent i = some p) :
    t.isFirstChild i = true ↔ t.child? p 0 = some i := by
  obtain ⟨before, behind, hchildren⟩ := h.exists_split hp
  rw [h.isFirstChild_of_split hchildren, child?, hchildren]
  cases before with
  | nil => simp
  | cons b before =>
    have hlt := (h.sorted_split hchildren).1 b List.mem_cons_self
    simp
    omega

/-- Accesses of which each is the base of the next. -/
structure IsAccessChain (t : Tree) (chain : List Nat) : Prop where
  accesses : ∀ a ∈ chain, t.kind a = .arrayIndexExpression
  bases : chain.IsChain fun a b => t.child? b 0 = some a

namespace IsAccessChain

variable {b : Nat} {rest : List Nat}

theorem base (hchain : t.IsAccessChain (a :: b :: rest)) : t.child? b 0 = some a :=
  (List.isChain_cons_cons.1 hchain.bases).1

theorem tail (hchain : t.IsAccessChain (a :: b :: rest)) : t.IsAccessChain (b :: rest) where
  accesses x hx := hchain.accesses x (List.mem_cons_of_mem a hx)
  bases := (List.isChain_cons_cons.1 hchain.bases).2

theorem cons (hchain : t.IsAccessChain (b :: rest)) (ha : t.kind a = .arrayIndexExpression)
    (hbase : t.child? b 0 = some a) : t.IsAccessChain (a :: b :: rest) where
  accesses := by simpa [ha] using hchain.accesses
  bases := List.isChain_cons_cons.2 ⟨hbase, hchain.bases⟩

end IsAccessChain

/-- An assignment writes to its target, a pattern to everything in it. -/
def Writes (t : Tree) (p i : Nat) : Prop :=
  t.kind p = .assignmentExpression ∧ t.child? p 0 = some i ∨ t.kind p = .listExpression ∧ i ∈ t.children p

/-- A chain of accesses leads from an access to one that is written to. -/
def WritesThrough (t : Tree) (p i : Nat) : Prop :=
  ∃ chain, chain.head? = some i ∧ t.IsAccessChain chain ∧ ∃ last, chain.getLast? = some last ∧ t.Writes p last

theorem WellFormed.parent_of_writes (h : t.WellFormed) (hwrites : t.Writes p i) : t.parent i = some p := by
  rcases hwrites with ⟨-, hchild⟩ | ⟨-, hchild⟩
  · exact h.parent_of_child? hchild
  · exact (h.mem_children p i).1 hchild

theorem Writes.kind_ne (hwrites : t.Writes p i) : t.kind p ≠ .arrayIndexExpression := by
  rcases hwrites with ⟨hkind, -⟩ | ⟨hkind, -⟩ <;> simp [hkind]

theorem WellFormed.exists_writes_iff (h : t.WellFormed) (hq : t.parent i = some q) : (∃ p, t.Writes p i) ↔
    t.kind q = .assignmentExpression ∧ t.isFirstChild i = true ∨ t.kind q = .listExpression := by
  rw [h.isFirstChild_iff hq]
  constructor
  · rintro ⟨p, hwrites⟩
    obtain rfl : q = p := Option.some.inj (hq.symm.trans (h.parent_of_writes hwrites))
    exact hwrites.imp_right And.left
  · rintro (hassign | hlist)
    · exact ⟨q, .inl hassign⟩
    · exact ⟨q, .inr ⟨hlist, (h.mem_children q i).2 hq⟩⟩

/-- One step along a chain. -/
theorem WellFormed.writesThrough_iff (h : t.WellFormed) (hi : t.kind i = .arrayIndexExpression)
    (hq : t.parent i = some q) : t.WritesThrough p i ↔ t.Writes p i ∨
      t.kind q = .arrayIndexExpression ∧ t.isFirstChild i = true ∧ t.WritesThrough p q := by
  constructor
  · rintro ⟨chain, hhead, hchain, last, hlast, hwrites⟩
    match chain, hhead with
    | [_], rfl =>
      cases hlast
      exact .inl hwrites
    | _ :: b :: rest, rfl =>
      obtain rfl : q = b := Option.some.inj (hq.symm.trans (h.parent_of_child? hchain.base))
      rw [List.getLast?_cons_cons] at hlast
      refine .inr ⟨hchain.accesses q (by simp), (h.isFirstChild_iff hq).2 hchain.base, ?_⟩
      exact ⟨q :: rest, rfl, hchain.tail, last, hlast, hwrites⟩
  · rintro (hwrites | ⟨-, hfirst, chain, hhead, hchain, last, hlast, hwrites⟩)
    · exact ⟨[i], rfl, ⟨by simpa using hi, .singleton i⟩, i, rfl, hwrites⟩
    · match chain, hhead with
      | _ :: rest, rfl =>
        have hbase : t.child? q 0 = some i := (h.isFirstChild_iff hq).1 hfirst
        exact ⟨i :: q :: rest, rfl, hchain.cons hi hbase, last, by rwa [List.getLast?_cons_cons], hwrites⟩

end Tree

namespace Place

/-- The base of an index is defined in targets and patterns, and as the base of an index at such a place. -/
theorem element_below (place : Place) (kind : Kind) (first : Bool) : (place.below kind first).element = true ↔
    (kind = .assignmentExpression ∧ first = true ∨ kind = .listExpression) ∨
      kind = .arrayIndexExpression ∧ first = true ∧ place.element = true := by
  cases kind <;> cases first <;> simp [below, reading, writing]

end Place

namespace UndefinedVariable

/-- The place of an access defines the base of the access if something writes through the access. -/
theorem element_iff_writesThrough (h : t.WellFormed) (hat : t.At i place) (hi : t.kind i = .arrayIndexExpression) :
    place.element = true ↔ ∃ p, t.WritesThrough p i := by
  induction hat with
  | @orphan i hnone =>
    obtain ⟨p, hp⟩ := h.exists_parent_of_kind (i := i) (by rw [hi]; decide)
    rw [hnone] at hp
    cases hp
  | @child i q place hq _ ih =>
    simp only [h.writesThrough_iff hi hq, exists_or, exists_and_left]
    rw [Place.element_below, h.exists_writes_iff hq]
    exact or_congr_right (and_congr_right fun hkind => and_congr_right fun _ => ih hkind)

/-- The loop ends by itself: with more steps than there are nodes above, their number does not matter. -/
theorem isElementWriteWithin_eq_isElementWrite (h : t.WellFormed) (ha : t.kind a = .arrayIndexExpression) (hn : a < n) :
    isElementWriteWithin t n a = isElementWrite t a := by
  have hkind : t.kind a ≠ .program := by rw [ha]; decide
  obtain ⟨place, hat⟩ := h.exists_at a
  rw [isElementWrite, isElementWriteWithin_of_at h hat hkind hn,
    isElementWriteWithin_of_at h hat hkind (Tree.lt_size_of_kind hkind)]

/-- A variable below an access is defined if it is the base and the place of the access defines bases. -/
theorem isDefinition_of_access (h : t.WellFormed) (hv : t.kind v = .var) (ha : t.parent v = some a)
    (haccess : t.kind a = .arrayIndexExpression) (hat : t.At a place) :
    isDefinition t v = .ok (t.isFirstChild v && place.element) := by
  rw [isDefinition_of_at h (.child ha hat) (by rw [hv]; decide), haccess]
  cases t.isFirstChild v <;> rfl

/-! ### Inside of an index -/

/-- A node is, or stands below, something in the index of an access. -/
structure InIndex (t : Tree) (x c i : Nat) : Prop where
  access : t.kind x = .arrayIndexExpression
  below : t.parent c = some x
  index : t.child? x 0 ≠ some c
  inside : i = c ∨ c ∈ t.ancestors i

namespace InIndex

theorem parent (hin : InIndex t x c i) (h : t.WellFormed) (hq : t.parent i = some q) (hne : i ≠ c) :
    InIndex t x c q := by
  refine { hin with inside := ?_ }
  have hmem := hin.inside.resolve_left hne
  rw [h.ancestors_of_parent hq, List.mem_cons] at hmem
  exact hmem.imp_left Eq.symm

/-- What is the index itself is not written to. -/
theorem not_writes (hin : InIndex t x c i) (h : t.WellFormed) : ¬t.Writes p c := by
  intro hwrites
  obtain rfl : x = p := Option.some.inj (hin.below.symm.trans (h.parent_of_writes hwrites))
  exact hwrites.kind_ne hin.access

theorem not_writesThrough (hin : InIndex t x c i) (h : t.WellFormed) (hc : t.kind c = .arrayIndexExpression) :
    ¬t.WritesThrough p c := by
  rw [h.writesThrough_iff hc hin.below, h.isFirstChild_iff hin.below]
  rintro (hwrites | ⟨-, hfirst, -⟩)
  · exact hin.not_writes h hwrites
  · exact hin.index hfirst

/-- The chain of accesses does not lead out of the index. -/
theorem of_writesThrough (hin : InIndex t x c i) (h : t.WellFormed) (hwrites : t.WritesThrough p i) :
    InIndex t x c p := by
  obtain ⟨chain, hhead, hchain, last, hlast, hwrites⟩ := hwrites
  induction chain generalizing i with
  | nil => cases hhead
  | cons j rest ih =>
    obtain rfl : j = i := Option.some.inj hhead
    cases rest with
    | nil =>
      obtain rfl : j = last := Option.some.inj hlast
      refine hin.parent h (h.parent_of_writes hwrites) ?_
      rintro rfl
      exact hin.not_writes h hwrites
    | cons b rest =>
      have hparent := h.parent_of_child? hchain.base
      have hne : j ≠ c := by
        rintro rfl
        obtain rfl : x = b := Option.some.inj (hin.below.symm.trans hparent)
        exact hin.index hchain.base
      rw [List.getLast?_cons_cons] at hlast
      exact ih (hin.parent h hparent hne) rfl hchain.tail hlast

end InIndex

/-! ### Trees that grow from a bare root -/

/-- In every tree that grows from a bare root it is decided for each variable below an access whether it is defined, and
the loop that decides it does not depend on a bound. The variable is defined if it is the base of the access and a chain
of accesses leads from there to one that is written to. A variable that is the index of an access, or the base of an
access that is one, is not defined. Further down in an index, only what is in the same index writes to it. -/
theorem base_defined_iff_written_through (t : Tree) (h : t.Built) (v a : Nat) (hv : t.kind v = .var)
    (ha : t.parent v = some a) (haccess : t.kind a = .arrayIndexExpression) :
    (∃ defined, isDefinition t v = .ok defined ∧
      (defined = true ↔ t.child? a 0 = some v ∧ ∃ p, t.WritesThrough p a)) ∧
    (∀ steps, a < steps → isElementWriteWithin t steps a = isElementWrite t a) ∧
    (∀ x c, InIndex t x c v → v = c ∨ a = c → isDefinition t v = .ok false) ∧
    ∀ x c p, InIndex t x c a → t.WritesThrough p a → InIndex t x c p := by
  have hwf := h.wellFormed
  obtain ⟨place, hat⟩ := hwf.exists_at a
  have hdefinition := isDefinition_of_access hwf hv ha haccess hat
  have hiff : (t.isFirstChild v && place.element) = true ↔ t.child? a 0 = some v ∧ ∃ p, t.WritesThrough p a := by
    rw [Bool.and_eq_true, hwf.isFirstChild_iff ha, element_iff_writesThrough hwf hat haccess]
  refine ⟨⟨_, hdefinition, hiff⟩, fun steps => isElementWriteWithin_eq_isElementWrite hwf haccess, ?_,
    fun x c p hin => hin.of_writesThrough hwf⟩
  intro x c hin hindex
  rw [hdefinition, Except.ok.injEq, Bool.eq_false_iff, ne_eq, hiff]
  rintro ⟨hbase, p, hwrites⟩
  rcases hindex with rfl | rfl
  · obtain rfl : a = x := Option.some.inj (ha.symm.trans hin.below)
    exact hin.index hbase
  · exact hin.not_writesThrough hwf haccess hwrites

/-- The tree of `$a[$b[1]][$c[2] = 3] = 4`. -/
def nestedAccesses : Tree :=
  [(Kind.assignmentExpression, "=", 0), (.arrayIndexExpression, "[", 1), (.arrayIndexExpression, "[", 2),
    (.var, "$a", 3), (.arrayIndexExpression, "[", 3), (.var, "$b", 5), (.expression, "", 5),
    (.assignmentExpression, "=", 2), (.arrayIndexExpression, "[", 8), (.var, "$c", 9), (.expression, "", 9),
    (.expression, "", 8), (.expression, "", 1)].foldl
    (fun t (kind, image, parent) => t.push ⟨kind, image, 1, 1, false⟩ parent) (.empty 1 1)

theorem built_nestedAccesses : nestedAccesses.Built := by
  repeat refine .push _ ?_ (by decide)
  exact .empty 1 1

/-- The variable at the bottom is defined, and so is the one that is assigned to in an index, where the assignment
is. -/
theorem written_through_nestedAccesses :
    (nestedAccesses.Built ∧
      nestedAccesses.kind 4 = .var ∧ nestedAccesses.kind 6 = .var ∧ nestedAccesses.kind 10 = .var) ∧
    isDefinition nestedAccesses 4 = .ok true ∧ isElementWriteWithin nestedAccesses 4 3 = .ok true ∧
    isDefinition nestedAccesses 6 = .ok false ∧ isDefinition nestedAccesses 10 = .ok true ∧
    InIndex nestedAccesses 2 8 8 := by
  have hbuilt := built_nestedAccesses
  obtain ⟨⟨defined, hdefined, hiff⟩, hsteps, -⟩ :=
    base_defined_iff_written_through nestedAccesses hbuilt 4 3 (by decide) (by decide) (by decide)
  obtain ⟨-, -, hread, -⟩ :=
    base_defined_iff_written_through nestedAccesses hbuilt 6 5 (by decide) (by decide) (by decide)
  obtain ⟨⟨defined', hdefined', hiff'⟩, -, -, hinside⟩ :=
    base_defined_iff_written_through nestedAccesses hbuilt 10 9 (by decide) (by decide) (by decide)
  have hwrites : nestedAccesses.WritesThrough 1 3 := ⟨[3, 2], rfl, ⟨by decide, by decide⟩, 2, rfl, .inl (by decide)⟩
  have hwrites' : nestedAccesses.WritesThrough 8 9 := ⟨[9], rfl, ⟨by decide, by decide⟩, 9, rfl, .inl (by decide)⟩
  rw [hiff.2 ⟨by decide, 1, hwrites⟩] at hdefined
  rw [hiff'.2 ⟨by decide, 8, hwrites'⟩] at hdefined'
  exact ⟨⟨hbuilt, by decide⟩, hdefined, (hsteps 4 (by decide)).trans (by decide),
    hread 3 5 ⟨by decide, by decide, by decide, by decide⟩ (by decide), hdefined',
    hinside 2 8 8 ⟨by decide, by decide, by decide, by decide⟩ hwrites'⟩

/-- Bases of accesses inside of an index are not always only read. -/
theorem base_in_index_defined : ¬∀ x c v a, InIndex nestedAccesses x c a →
    nestedAccesses.kind a = .arrayIndexExpression → nestedAccesses.child? a 0 = some v → nestedAccesses.kind v = .var →
    isDefinition nestedAccesses v ≠ .ok true := by
  intro h
  exact h 2 8 10 9 ⟨by decide, by decide, by decide, by decide⟩ (by decide) (by decide) (by decide) (by decide)

end UndefinedVariable

end PhpInspect
