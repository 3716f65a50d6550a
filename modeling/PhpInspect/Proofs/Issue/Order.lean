import Mathlib.Order.Defs.Unbundled
import PhpInspect.Proofs.Path
import PhpInspect.Report.Format

/-! # Issues in order

Sorting by a comparison is determined by two things: the result is in order, and the items that the comparison does not
tell apart keep theirs. So sorting parts first makes no difference, and neither does sorting again by less.
-/

namespace PhpInspect

/-! ### Sorting by a comparison -/

section Sorting

variable {α : Type} {cmp : α → α → Ordering} {l l' : List α} {a b key : α}

/-- The items that a comparison does not tell from a key, in their order. -/
def tiedWith (cmp : α → α → Ordering) (key : α) (l : List α) : List α := l.filter fun a => cmp key a == .eq

/-- The items are in order. -/
def InOrder (cmp : α → α → Ordering) (l : List α) : Prop := l.Pairwise fun a b => (cmp a b).isLE = true

theorem tiedWith_cons_of_eq (h : cmp key a = .eq) (l : List α) :
    tiedWith cmp key (a :: l) = a :: tiedWith cmp key l := by
  simp [tiedWith, h]

theorem tiedWith_cons_of_ne (h : cmp key a ≠ .eq) (l : List α) : tiedWith cmp key (a :: l) = tiedWith cmp key l := by
  simp [tiedWith, h]

theorem tiedWith_append (key : α) (l l' : List α) :
    tiedWith cmp key (l ++ l') = tiedWith cmp key l ++ tiedWith cmp key l' := List.filter_append _ _

variable [Std.TransCmp cmp]

theorem mem_of_tiedWith (h : tiedWith cmp a l = tiedWith cmp a l') (ha : a ∈ l) : a ∈ l' := by
  have hmem : a ∈ tiedWith cmp a l := List.mem_filter.2 ⟨ha, by simp [Std.ReflCmp.compare_self]⟩
  rw [h] at hmem
  exact (List.mem_filter.1 hmem).1

theorem InOrder.isLE_head (h : InOrder cmp (b :: l)) (ha : a ∈ b :: l) : (cmp b a).isLE = true := by
  rcases List.mem_cons.1 ha with rfl | ha
  · exact Std.ReflCmp.isLE_rfl
  · exact List.rel_of_pairwise_cons h ha

/-- Two lists in order are the same if they have the same ties, each in the same order. -/
theorem InOrder.eq_of_tiedWith (h : InOrder cmp l) (h' : InOrder cmp l')
    (hties : ∀ key, tiedWith cmp key l = tiedWith cmp key l') : l = l' := by
  induction l generalizing l' with
  | nil =>
    cases l' with
    | nil => rfl
    | cons b l' => exact absurd (mem_of_tiedWith (hties b).symm List.mem_cons_self) List.not_mem_nil
  | cons a l ih =>
    cases l' with
    | nil => exact absurd (mem_of_tiedWith (hties a) List.mem_cons_self) List.not_mem_nil
    | cons b l' =>
      -- Each of the two heads stands in the other list as well, so they are tied.
      have hab : cmp a b = .eq := Std.OrientedCmp.isLE_antisymm
        (h.isLE_head (mem_of_tiedWith (hties b).symm List.mem_cons_self))
        (h'.isLE_head (mem_of_tiedWith (hties a) List.mem_cons_self))
      have hheads := hties a
      rw [tiedWith_cons_of_eq Std.ReflCmp.compare_self, tiedWith_cons_of_eq hab] at hheads
      obtain rfl : a = b := (List.cons.inj hheads).1
      refine congrArg (a :: ·) (ih h.of_cons h'.of_cons fun key => ?_)
      have hkey := hties key
      by_cases htied : cmp key a = .eq
      · rw [tiedWith_cons_of_eq htied, tiedWith_cons_of_eq htied] at hkey
        exact (List.cons.inj hkey).2
      · rwa [tiedWith_cons_of_ne htied, tiedWith_cons_of_ne htied] at hkey

theorem isLE_total (cmp : α → α → Ordering) [Std.TransCmp cmp] (a b : α) :
    (cmp a b).isLE = true ∨ (cmp b a).isLE = true := by
  have hswap : cmp b a = (cmp a b).swap := Std.OrientedCmp.eq_swap
  cases hab : cmp a b <;> simp [hswap, hab]

theorem inOrder_mergeSort (l : List α) : InOrder cmp (l.mergeSort fun a b => (cmp a b).isLE) := by
  apply List.pairwise_mergeSort
  · exact fun a b c => Std.TransCmp.isLE_trans
  · intro a b
    simpa using isLE_total cmp a b

theorem tiedWith_mergeSort (key : α) (l : List α) :
    tiedWith cmp key (l.mergeSort fun a b => (cmp a b).isLE) = tiedWith cmp key l := by
  have hpairwise : (tiedWith cmp key l).Pairwise fun a b => (cmp a b).isLE = true := by
    refine List.pairwise_of_forall_mem_list fun a ha b hb => ?_
    have hka : cmp key a = .eq := by simpa using (List.mem_filter.1 ha).2
    have hkb : cmp key b = .eq := by simpa using (List.mem_filter.1 hb).2
    rw [← Std.TransCmp.congr_left hka, hkb]
    rfl
  have hsub : (tiedWith cmp key l).Sublist (l.mergeSort fun a b => (cmp a b).isLE) :=
    List.sublist_mergeSort (fun a b c => Std.TransCmp.isLE_trans) (fun a b => by simpa using isLE_total cmp a b)
      hpairwise List.filter_sublist
  have hlength := ((List.mergeSort_perm l fun a b => (cmp a b).isLE).filter fun a => cmp key a == .eq).length_eq
  have hfiltered := hsub.filter fun a => cmp key a == .eq
  rw [tiedWith, List.filter_filter] at hfiltered
  simp only [Bool.and_self] at hfiltered
  exact (hfiltered.eq_of_length hlength.symm).symm

theorem mergeSort_append (l l' : List α) :
    ((l ++ l').mergeSort fun a b => (cmp a b).isLE) =
      ((l.mergeSort fun a b => (cmp a b).isLE) ++ l'.mergeSort fun a b => (cmp a b).isLE).mergeSort
        fun a b => (cmp a b).isLE := by
  refine (inOrder_mergeSort _).eq_of_tiedWith (inOrder_mergeSort _) fun key => ?_
  simp only [tiedWith_mergeSort, tiedWith_append]

end Sorting

/-! ### The order of issues -/

namespace Issue

instance : Std.TransCmp fun a b : Issue => Path.compare a.file b.file where
  eq_swap := Std.OrientedCmp.eq_swap
  isLE_trans := Std.TransCmp.isLE_trans

instance : Std.TransCmp comparePlace :=
  inferInstanceAs (Std.TransCmp (compareLex (fun a b : Issue => Path.compare a.file b.file) (compareOn Issue.line)))

instance : Std.TransCmp Issue.compare :=
  inferInstanceAs (Std.TransCmp (compareLex comparePlace (compareOn Issue.rule)))

theorem compare_eq_iff (a b : Issue) : a.compare b = .eq ↔
    Path.components a.file = Path.components b.file ∧ a.line = b.line ∧ a.rule = b.rule := by
  rw [Issue.compare, comparePlace, Ordering.then_eq_eq, Ordering.then_eq_eq, Path.compare_eq_iff, Nat.compare_eq_eq,
    Std.LawfulEqCmp.compare_eq_iff_eq, and_assoc]

/-- What is in order by file, line and rule is in order by file and line. -/
theorem inOrder_comparePlace {issues : List Issue} (h : InOrder Issue.compare issues) :
    InOrder comparePlace issues := h.imp fun hab => (Ordering.isLE_then_iff_and.1 hab).1

theorem sortedByPlace_of_inOrder {issues : List Issue} (h : InOrder Issue.compare issues) :
    sortedByPlace issues = issues := List.mergeSort_of_pairwise (inOrder_comparePlace h)

/-- By file, line and rule issues are totally preordered, those being tied that have the same place and rule. Sorting
puts them in this order and leaves ties as they are. Sorting twice, or parts first, gives the same, and the raw report
of what is sorted has its lines in the same order. -/
theorem sorted_by_file_line_rule (c a b : List Issue) :
    (IsPreorder Issue (fun i j => (i.compare j).isLE = true) ∧ Std.Total fun i j : Issue => (i.compare j).isLE = true) ∧
    (∀ i j : Issue, i.compare j = .eq ↔
      Path.components i.file = Path.components j.file ∧ i.line = j.line ∧ i.rule = j.rule) ∧
    (sorted c).Perm c ∧ InOrder Issue.compare (sorted c) ∧
    (∀ key, tiedWith Issue.compare key (sorted c) = tiedWith Issue.compare key c) ∧
    sorted (sorted c) = sorted c ∧ sorted (a ++ b) = sorted (sorted a ++ sorted b) ∧
    Report.raw (sorted c) = String.join ((sorted c).map fun i =>
      i.file ++ ":" ++ toString i.line ++ ":" ++ i.message ++ "\n") := by
  have horder : InOrder Issue.compare (sorted c) := inOrder_mergeSort c
  refine ⟨⟨?_, ⟨isLE_total Issue.compare⟩⟩, compare_eq_iff, List.mergeSort_perm c _, horder,
    fun key => tiedWith_mergeSort key c, List.mergeSort_of_pairwise horder, mergeSort_append a b, ?_⟩
  · exact { refl := fun _ => Std.ReflCmp.isLE_rfl, trans := fun _ _ _ => Std.TransCmp.isLE_trans }
  · rw [Report.raw, sortedByPlace_of_inOrder horder]
    rfl

end Issue

end PhpInspect
