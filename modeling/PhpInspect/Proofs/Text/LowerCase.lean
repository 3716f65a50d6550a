import Mathlib.Tactic.SplitIfs
import PhpInspect.Text.LowerCase

/-! # Lower case of ASCII words

Of the letters outside of ASCII only the Kelvin sign has an ASCII letter as its lower case, and only the dotted capital
I has one in its lower case, before a mark. So a word of small ASCII letters without `k` is the lower case of those
texts only that differ from it in the case of ASCII letters.
-/

namespace PhpInspect.Text

variable {c d : Char} {word : List Char}

/-- A small ASCII letter, not the one that is also the lower case of the Kelvin sign. -/
def IsPlain (d : Char) : Prop := d.isLower = true ∧ d ≠ 'k'

instance (d : Char) : Decidable (IsPlain d) := inferInstanceAs (Decidable (_ ∧ _))

theorem IsPlain.bounds (h : IsPlain d) : 0 < d.toNat ∧ d.toNat < 128 := by
  have hlower : (decide (d.val ≥ 'a'.val) && decide (d.val ≤ 'z'.val)) = true := h.1
  simp only [Bool.and_eq_true, decide_eq_true_eq, UInt32.le_iff_toNat_le, ge_iff_le] at hlower
  have hfirst : 'a'.val.toNat = 97 := rfl
  have hlast : 'z'.val.toNat = 122 := rfl
  have hval : d.val.toNat = d.toNat := rfl
  omega

/-! ### Single letters -/

/-- A run of letters is that of ASCII, the Kelvin sign, or outside of ASCII together with its lower case. -/
theorem caseRuns_cases : ∀ run ∈ caseRuns, run.last < 128 ∨ run = ⟨8490, 8490, 1, -8383⟩ ∨
    (128 : Int) ≤ run.first + run.shift := by
  decide +kernel

theorem lowerChar_of_ascii (h : c.toNat < 128) : lowerChar c = c.toLower := by
  have hall : ∀ n < 128, lowerChar (Char.ofNat n) = (Char.ofNat n).toLower := by decide +kernel
  have hc := hall c.toNat h
  rwa [Char.ofNat_toNat] at hc

theorem toLower_of_not_ascii (h : 128 ≤ c.toNat) : c.toLower = c := by
  have hlast : 'Z'.val.toNat = 90 := rfl
  have hval : c.val.toNat = c.toNat := rfl
  have hupper : ¬ (c.val ≥ 'A'.val ∧ c.val ≤ 'Z'.val) := by
    rw [UInt32.le_iff_toNat_le]
    omega
  exact dif_neg hupper

/-- A number that is no character's gives the character zero. -/
theorem toNat_ofNat_cases (n : Nat) : (Char.ofNat n).toNat = n ∨ (Char.ofNat n).toNat = 0 := by
  by_cases h : n.isValidChar
  · have hvalid : Char.ofNat n = Char.ofNatAux n h := dif_pos h
    exact .inl (congrArg Char.toNat hvalid)
  · have hzero : Char.ofNat n = ⟨0, by decide⟩ := dif_neg h
    exact .inr (congrArg Char.toNat hzero)

theorem lowerChar_ne_of_not_ascii (h : 128 ≤ c.toNat) (hd : IsPlain d) : lowerChar c ≠ d := by
  have hbounds := hd.bounds
  unfold lowerChar
  split
  · next run hrun =>
    have hcontains := List.find?_some hrun
    simp only [CaseRun.contains, Bool.and_eq_true, decide_eq_true_eq] at hcontains
    obtain ⟨⟨hfirst, hlast⟩, -⟩ := hcontains
    rcases caseRuns_cases run (List.mem_of_find?_eq_some hrun) with hrun | rfl | hrun
    · omega
    · obtain hk : c.toNat = 8490 := Nat.le_antisymm hlast hfirst
      rw [hk]
      exact hd.2.symm
    · rintro rfl
      have hcases := toNat_ofNat_cases (Int.toNat (c.toNat + run.shift))
      omega
  · rintro rfl
    omega

theorem lowerChar_eq_iff (hd : IsPlain d) : lowerChar c = d ↔ c.toLower = d := by
  by_cases h : c.toNat < 128
  · rw [lowerChar_of_ascii h]
  · have hbounds := hd.bounds
    rw [toLower_of_not_ascii (by omega)]
    refine iff_of_false (lowerChar_ne_of_not_ascii (by omega) hd) ?_
    rintro rfl
    omega

/-! ### Words -/

theorem lowerList_cons_of_ne {passed cs : List Char} (hsigma : c ≠ 'Σ') (hdotted : c ≠ 'İ') :
    lowerList passed (c :: cs) = lowerChar c :: lowerList (c :: passed) cs := by
  simp [lowerList, hsigma, hdotted]

/-- The two letters with a rule of their own leave a character that is in no plain word. -/
theorem exists_not_isPlain_of_eq (passed cs : List Char) (h : c = 'Σ' ∨ c = 'İ') :
    ∃ d ∈ lowerList passed (c :: cs), ¬ IsPlain d := by
  rcases h with rfl | rfl
  · rw [lowerList, if_pos (by decide)]
    refine ⟨_, List.mem_cons_self, ?_⟩
    split_ifs <;> decide
  · exact ⟨'\u0307', List.mem_cons_of_mem _ List.mem_cons_self, by decide⟩

/-- A word of small ASCII letters without `k` is the lower case of a text if and only if they differ in the case of
ASCII letters. -/
theorem lowerList_eq_iff (hword : ∀ d ∈ word, IsPlain d) (passed cs : List Char) :
    lowerList passed cs = word ↔ cs.map Char.toLower = word := by
  induction cs generalizing passed word with
  | nil => rfl
  | cons c cs ih =>
    by_cases hspecial : c = 'Σ' ∨ c = 'İ'
    · refine iff_of_false ?_ ?_
      · rintro rfl
        obtain ⟨d, hd, hplain⟩ := exists_not_isPlain_of_eq passed cs hspecial
        exact hplain (hword d hd)
      · rintro rfl
        have hplain := hword c.toLower List.mem_cons_self
        rcases hspecial with rfl | rfl <;> exact absurd hplain (by decide)
    · rw [not_or] at hspecial
      rw [lowerList_cons_of_ne hspecial.1 hspecial.2]
      cases word with
      | nil => simp
      | cons d word =>
        obtain ⟨hd, hword⟩ := List.forall_mem_cons.1 hword
        rw [List.map_cons, List.cons.injEq, List.cons.injEq, lowerChar_eq_iff hd, ih hword]

end PhpInspect.Text
