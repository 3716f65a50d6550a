import Mathlib.Data.List.Basic

/-! # Computations that may fail

When a computation gives a result, and what filtering and mapping with such computations do to a list.
-/

namespace PhpInspect

variable {ε α β γ δ : Type}

/-- A computation gives a result. -/
def Succeeds (x : Except ε α) : Prop := ∃ a, x = .ok a

theorem succeeds_pure (a : α) : Succeeds (pure a : Except ε α) := ⟨a, rfl⟩

theorem exists_of_bind_eq_ok {x : Except ε α} {f : α → Except ε β} {b : β} (h : (x >>= f) = .ok b) :
    ∃ a, x = .ok a ∧ f a = .ok b := by
  cases x with
  | error e => cases h
  | ok a => exact ⟨a, rfl, h⟩

theorem Succeeds.bind {x : Except ε α} {f : α → Except ε β} (hx : Succeeds x)
    (hf : ∀ a, x = .ok a → Succeeds (f a)) : Succeeds (x >>= f) := by
  obtain ⟨a, rfl⟩ := hx
  exact hf a rfl

theorem Succeeds.ite {p : Prop} [Decidable p] {x y : Except ε α} (hx : p → Succeeds x) (hy : ¬p → Succeeds y) :
    Succeeds (if p then x else y) := by
  split_ifs with h
  · exact hx h
  · exact hy h

theorem Succeeds.mapM {f : α → Except ε β} {xs : List α} (h : ∀ x ∈ xs, Succeeds (f x)) :
    Succeeds (xs.mapM f) := by
  induction xs with
  | nil => exact succeeds_pure []
  | cons x xs ih =>
    rw [List.mapM_cons]
    refine (h x List.mem_cons_self).bind fun y _ => ?_
    refine (ih fun z hz => h z (List.mem_cons_of_mem _ hz)).bind fun ys _ => ?_
    exact succeeds_pure (y :: ys)

theorem exists_of_mem_mapM {f : α → Except ε β} {xs : List α} {ys : List β} {y : β} (h : xs.mapM f = .ok ys)
    (hy : y ∈ ys) : ∃ x ∈ xs, f x = .ok y := by
  induction xs generalizing ys with
  | nil =>
    cases h
    cases hy
  | cons x xs ih =>
    rw [List.mapM_cons] at h
    obtain ⟨z, hz, h⟩ := exists_of_bind_eq_ok h
    obtain ⟨zs, hzs, h⟩ := exists_of_bind_eq_ok h
    cases h
    rcases List.mem_cons.1 hy with rfl | hy
    · exact ⟨x, List.mem_cons_self, hz⟩
    · obtain ⟨w, hw, hwy⟩ := ih hzs hy
      exact ⟨w, List.mem_cons_of_mem _ hw, hwy⟩

theorem flatten_sublist_of_mapM {f : α → Except ε (List β)} {g : α → List β} {xs : List α} {ys : List (List β)}
    (h : xs.mapM f = .ok ys) (hf : ∀ x ∈ xs, ∀ y, f x = .ok y → y.Sublist (g x)) :
    ys.flatten.Sublist (xs.flatMap g) := by
  induction xs generalizing ys with
  | nil =>
    cases h
    exact List.Sublist.refl []
  | cons x xs ih =>
    rw [List.mapM_cons] at h
    obtain ⟨y, hy, h⟩ := exists_of_bind_eq_ok h
    obtain ⟨zs, hzs, h⟩ := exists_of_bind_eq_ok h
    cases h
    rw [List.flatten_cons, List.flatMap_cons]
    exact (hf x List.mem_cons_self y hy).append (ih hzs fun z hz => hf z (List.mem_cons_of_mem _ hz))

/-- Where items fail on a test, a loop over them fails at the first item that passes it. -/
theorem mapM_eq_error_iff {f : α → Except ε β} {test : α → Bool} {fault : α → ε} {xs : List α} {e : ε}
    (h : ∀ x ∈ xs, ∀ e, f x = .error e ↔ test x = true ∧ e = fault x) :
    xs.mapM f = .error e ↔ ∃ x, xs.find? test = some x ∧ e = fault x := by
  induction xs with
  | nil => exact ⟨nofun, nofun⟩
  | cons x xs ih =>
    have hx := h x List.mem_cons_self
    have ih := ih fun y hy => h y (List.mem_cons_of_mem _ hy)
    rw [List.mapM_cons, List.find?_cons]
    cases hf : f x with
    | error e' =>
      obtain ⟨htest, rfl⟩ := (hx e').1 hf
      simp [htest, bind, Except.bind, eq_comm]
    | ok y =>
      have htest : test x = false := by
        by_contra htest
        rw [Bool.not_eq_false] at htest
        have herror := (hx (fault x)).2 ⟨htest, rfl⟩
        rw [hf] at herror
        cases herror
      rw [htest, ← ih]
      cases xs.mapM f <;> simp [bind, Except.bind, pure, Except.pure]

theorem not_eq_ok_true {x : Except ε Bool} : (do return !(← x)) = Except.ok true ↔ x = .ok false := by
  cases x with
  | error e => simp [bind, Except.bind]
  | ok b => cases b <;> simp [bind, Except.bind, pure, Except.pure]

/-! ### Filtering -/

theorem filterAuxM_eq (f : α → Except ε Bool) (xs acc : List α) :
    xs.filterAuxM f acc = (do return (← xs.filterAuxM f []) ++ acc) := by
  induction xs generalizing acc with
  | nil => rfl
  | cons x xs ih =>
    rw [List.filterAuxM, List.filterAuxM]
    cases f x with
    | error e => rfl
    | ok b =>
      change xs.filterAuxM f (cond b (x :: acc) acc) = (do return (← xs.filterAuxM f (cond b [x] [])) ++ acc)
      rw [ih, ih (cond b [x] [])]
      cases b <;> cases xs.filterAuxM f [] <;> simp [bind, Except.bind, pure, Except.pure]

theorem filterM_cons (f : α → Except ε Bool) (x : α) (xs : List α) :
    (x :: xs).filterM f = (do
      let keep ← f x
      let kept ← xs.filterM f
      return if keep then x :: kept else kept) := by
  rw [List.filterM, List.filterAuxM, List.filterM]
  cases f x with
  | error e => rfl
  | ok b =>
    change (do return (← xs.filterAuxM f (cond b [x] [])).reverse) = _
    rw [filterAuxM_eq]
    cases b <;> cases xs.filterAuxM f [] <;> simp [bind, Except.bind, pure, Except.pure]

/-- Filtering by tests that all succeed is filtering by their results. -/
theorem filterM_eq_filter {f : α → Except ε Bool} {g : α → Bool} {xs : List α} (h : ∀ x ∈ xs, f x = .ok (g x)) :
    xs.filterM f = .ok (xs.filter g) := by
  induction xs with
  | nil => rfl
  | cons x xs ih =>
    rw [filterM_cons, h x List.mem_cons_self, ih fun y hy => h y (List.mem_cons_of_mem _ hy), List.filter_cons]
    rfl

theorem Succeeds.filterM {f : α → Except ε Bool} {xs : List α} (h : ∀ x ∈ xs, Succeeds (f x)) :
    Succeeds (xs.filterM f) := by
  induction xs with
  | nil => exact ⟨[], rfl⟩
  | cons x xs ih =>
    rw [filterM_cons]
    refine (h x List.mem_cons_self).bind fun b _ => ?_
    refine (ih fun z hz => h z (List.mem_cons_of_mem _ hz)).bind fun ys _ => ?_
    exact succeeds_pure _

theorem sublist_of_filterM {f : α → Except ε Bool} {xs ys : List α} (h : xs.filterM f = .ok ys) :
    ys.Sublist xs := by
  induction xs generalizing ys with
  | nil =>
    cases h
    exact List.Sublist.refl []
  | cons x xs ih =>
    rw [filterM_cons] at h
    obtain ⟨keep, -, h⟩ := exists_of_bind_eq_ok h
    obtain ⟨kept, hkept, h⟩ := exists_of_bind_eq_ok h
    cases h
    split_ifs
    · exact (ih hkept).cons_cons x
    · exact (ih hkept).cons x

/-- What filtering keeps are the items that pass the test. -/
theorem mem_of_filterM {f : α → Except ε Bool} {xs ys : List α} {y : α} (h : xs.filterM f = .ok ys) :
    y ∈ ys ↔ y ∈ xs ∧ f y = .ok true := by
  induction xs generalizing ys with
  | nil =>
    cases h
    simp
  | cons x xs ih =>
    rw [filterM_cons] at h
    obtain ⟨keep, hkeep, h⟩ := exists_of_bind_eq_ok h
    obtain ⟨kept, hkept, h⟩ := exists_of_bind_eq_ok h
    cases h
    cases keep with
    | true =>
      rw [if_pos rfl, List.mem_cons, List.mem_cons, ih hkept]
      constructor
      · rintro (rfl | ⟨hy, hpass⟩)
        · exact ⟨.inl rfl, hkeep⟩
        · exact ⟨.inr hy, hpass⟩
      · rintro ⟨rfl | hy, hpass⟩
        · exact .inl rfl
        · exact .inr ⟨hy, hpass⟩
    | false =>
      rw [if_neg Bool.false_ne_true, List.mem_cons, ih hkept]
      constructor
      · rintro ⟨hy, hpass⟩
        exact ⟨.inr hy, hpass⟩
      · rintro ⟨rfl | hy, hpass⟩
        · rw [hkeep] at hpass
          cases hpass
        · exact ⟨hy, hpass⟩

theorem flatten_eq_of_mapM {f : α → Except ε (List β)} {g : α → List β} {xs : List α} {ys : List (List β)}
    (h : xs.mapM f = .ok ys) (hf : ∀ x ∈ xs, ∀ y, f x = .ok y → y = g x) : ys.flatten = xs.flatMap g := by
  induction xs generalizing ys with
  | nil =>
    cases h
    rfl
  | cons x xs ih =>
    rw [List.mapM_cons] at h
    obtain ⟨y, hy, h⟩ := exists_of_bind_eq_ok h
    obtain ⟨zs, hzs, h⟩ := exists_of_bind_eq_ok h
    cases h
    rw [List.flatten_cons, List.flatMap_cons, hf x List.mem_cons_self y hy,
      ih hzs fun z hz => hf z (List.mem_cons_of_mem _ hz)]

/-! ### Renaming the items -/

theorem bind_map (g : α → β) (g' : γ → δ) {x : Except ε α} {x' : Except ε β} {f : α → Except ε γ}
    {f' : β → Except ε δ} (hx : x' = x.map g) (hf : ∀ a, x = .ok a → f' (g a) = (f a).map g') :
    (x' >>= f') = (x >>= f).map g' := by
  subst hx
  cases x with
  | error e => rfl
  | ok a => exact hf a rfl

theorem filterM_map (g : α → β) {f : α → Except ε Bool} {f' : β → Except ε Bool} {xs : List α}
    (h : ∀ x ∈ xs, f' (g x) = f x) :
    (xs.map g).filterM f' = (xs.filterM f).map (List.map g) := by
  induction xs with
  | nil => rfl
  | cons x xs ih =>
    rw [List.map_cons, filterM_cons, filterM_cons, h x List.mem_cons_self,
      ih fun y hy => h y (List.mem_cons_of_mem _ hy)]
    cases f x with
    | error e => rfl
    | ok b => cases xs.filterM f <;> cases b <;> rfl

theorem mapM_map (g : α → β) (k : γ → γ) {f : α → Except ε γ} {f' : β → Except ε γ} {xs : List α}
    (h : ∀ x ∈ xs, f' (g x) = (f x).map k) :
    (xs.map g).mapM f' = (xs.mapM f).map (List.map k) := by
  induction xs with
  | nil => rfl
  | cons x xs ih =>
    rw [List.map_cons, List.mapM_cons, List.mapM_cons, h x List.mem_cons_self,
      ih fun y hy => h y (List.mem_cons_of_mem _ hy)]
    cases f x with
    | error e => rfl
    | ok b => cases xs.mapM f <;> rfl

end PhpInspect
