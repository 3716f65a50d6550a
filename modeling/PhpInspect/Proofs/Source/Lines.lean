import Mathlib.Tactic.SplitIfs
import PhpInspect.Source.LineTable

/-! # The order of lines

A later offset is on no earlier line. Bisection alone sees to that, whatever the table holds. So a range inside of
another lies on lines of the other.
-/

namespace PhpInspect

/-- A range that is not empty lies inside of another. -/
def Span.Inside (s outer : Span) : Prop := outer.start ≤ s.start ∧ s.start < s.stop ∧ s.stop ≤ outer.stop

instance (s outer : Span) : Decidable (s.Inside outer) := inferInstanceAs (Decidable (_ ∧ _ ∧ _))

namespace LineTable

variable {t : LineTable} {lo hi m n : Nat} {s outer : Span}

theorem bisect_bounds (t : LineTable) (offset : Nat) (h : lo ≤ hi) :
    lo ≤ t.bisect offset lo hi ∧ t.bisect offset lo hi ≤ hi := by
  fun_induction bisect t offset lo hi with
  | case1 lo hi hlt mid hstart ih =>
    have hbounds := ih (by omega)
    omega
  | case2 lo hi hlt mid hstart ih =>
    have hbounds := ih (by omega)
    omega
  | case3 lo hi hge => omega

theorem bisect_mono (hmn : m ≤ n) (h : lo ≤ hi) : t.bisect m lo hi ≤ t.bisect n lo hi := by
  fun_induction bisect t m lo hi with
  | case1 lo hi hlt mid hstart ih =>
    rw [bisect.eq_def t n, if_pos hlt]
    change _ ≤ if t.startOf mid ≤ n then t.bisect n (mid + 1) hi else t.bisect n lo mid
    rw [if_pos (Nat.le_trans hstart hmn)]
    exact ih (by omega)
  | case2 lo hi hlt mid hstart ih =>
    rw [bisect.eq_def t n, if_pos hlt]
    change _ ≤ if t.startOf mid ≤ n then t.bisect n (mid + 1) hi else t.bisect n lo mid
    split_ifs
    · -- The searches part at the middle.
      have hleft := (bisect_bounds t m (show lo ≤ mid by omega)).2
      have hright := (bisect_bounds t n (show mid + 1 ≤ hi by omega)).1
      exact Nat.le_trans hleft (Nat.le_of_succ_le hright)
    · exact ih (by omega)
  | case3 lo hi hge => exact (bisect_bounds t n h).1

theorem lineOf_mono (h : m ≤ n) : t.lineOf m ≤ t.lineOf n := bisect_mono h (Nat.zero_le _)

/-- A range ends on no earlier line than it begins. -/
theorem linesOf_le (t : LineTable) (s : Span) : (t.linesOf s).1 ≤ (t.linesOf s).2 := by
  apply lineOf_mono
  split_ifs <;> omega

theorem linesOf_of_inside (h : s.Inside outer) :
    (t.linesOf outer).1 ≤ (t.linesOf s).1 ∧ (t.linesOf s).2 ≤ (t.linesOf outer).2 := by
  obtain ⟨hstart, hlt, hstop⟩ := h
  refine ⟨lineOf_mono hstart, lineOf_mono ?_⟩
  rw [if_pos hlt, if_pos (by omega)]
  omega

/-! ### The lines of a text -/

theorem one_le_bisect {offset : Nat} (hstart : t.startOf 0 ≤ offset) (hhi : 1 ≤ hi) : 1 ≤ t.bisect offset lo hi := by
  fun_induction bisect t offset lo hi with
  | case1 lo hi hlt mid hmid ih => exact ih hhi
  | case2 lo hi hlt mid hmid ih =>
    -- Line zero begins at or before the offset, so it is not the middle.
    refine ih (Nat.one_le_iff_ne_zero.2 fun hzero => hmid ?_)
    rwa [hzero]
  | case3 lo hi hge => omega

theorem lineOf_le_lineCount (t : LineTable) (offset : Nat) : t.lineOf offset ≤ t.lineCount :=
  (bisect_bounds t offset (Nat.zero_le _)).2

/-- The lines of a text are counted from one. -/
theorem one_le_lineOf_ofBytes (bytes : ByteArray) (offset : Nat) : 1 ≤ (ofBytes bytes).lineOf offset := by
  apply one_le_bisect
  · simp [ofBytes, startOf]
  · simp [ofBytes, lineCount]

theorem linesOf_ofBytes (bytes : ByteArray) (s : Span) :
    1 ≤ ((ofBytes bytes).linesOf s).1 ∧ ((ofBytes bytes).linesOf s).2 ≤ (ofBytes bytes).lineCount :=
  ⟨one_le_lineOf_ofBytes bytes _, lineOf_le_lineCount _ _⟩

end LineTable

end PhpInspect
