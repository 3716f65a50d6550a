import Mathlib.Data.List.Infix

/-! # Fields between marks

A text that is made of fields with marks between them can be cut at the marks again if no field lets the mark behind it
be found earlier.
-/

namespace PhpInspect.Text

variable {c : Char} {front mark : List Char}

/-- A mark that is put behind a text is found there and not earlier. -/
def EndsBefore (front mark : List Char) : Prop := ¬ mark <:+: front ++ mark.dropLast

instance (front mark : List Char) : Decidable (EndsBefore front mark) := inferInstanceAs (Decidable (¬ _))

/-- A mark whose first character is in it only once is not found across the end of the text. -/
theorem endsBefore_of_not_infix (hc : c ∉ mark) (h : ¬ c :: mark <:+: front) : EndsBefore front (c :: mark) := by
  induction front with
  | nil =>
    intro hfound
    have hlength := hfound.length_le
    simp only [List.nil_append, List.length_cons, List.length_dropLast] at hlength
    omega
  | cons d front ih =>
    rw [List.infix_cons_iff, not_or] at h
    intro hfound
    rw [List.cons_append, List.infix_cons_iff] at hfound
    rcases hfound with hfirst | hfound
    · obtain ⟨rfl, hmark⟩ := List.cons_prefix_cons.1 hfirst
      apply h.1
      rw [List.cons_prefix_cons]
      refine ⟨rfl, ?_⟩
      rcases List.prefix_or_prefix_of_prefix hmark (List.prefix_append front _) with hfront | ⟨tail, rfl⟩
      · exact hfront
      · -- What reaches over the end of the text begins as the mark does.
        cases tail with
        | nil => simp
        | cons e tail =>
          rw [List.prefix_append_right_inj, List.dropLast_cons_of_ne_nil (by simp), List.cons_prefix_cons] at hmark
          simp [hmark.1] at hc
    · exact ih h.2 hfound

/-- What stands before the first place of a mark, and what stands behind it. -/
def cutAt? (mark : List Char) : List Char → Option (List Char × List Char)
  | [] => if mark = [] then some ([], []) else none
  | c :: cs =>
    if mark <+: c :: cs then some ([], (c :: cs).drop mark.length)
    else (cutAt? mark cs).map fun (before, behind) => (c :: before, behind)

theorem cutAt?_append (hmark : mark ≠ []) (h : EndsBefore front mark) (rest : List Char) :
    cutAt? mark (front ++ (mark ++ rest)) = some (front, rest) := by
  induction front with
  | nil =>
    obtain ⟨c, mark, rfl⟩ := List.exists_cons_of_ne_nil hmark
    rw [List.nil_append, List.cons_append, cutAt?, if_pos ⟨rest, rfl⟩]
    simp
  | cons c front ih =>
    have hfirst : ¬ mark <+: c :: (front ++ (mark ++ rest)) := by
      intro hmark
      have hlonger : c :: front ++ mark.dropLast <+: c :: front ++ (mark ++ rest) := by
        rw [List.prefix_append_right_inj]
        exact (List.dropLast_prefix mark).trans (List.prefix_append mark rest)
      have hlength : mark.length ≤ (c :: front ++ mark.dropLast).length := by
        simp only [List.length_append, List.length_cons, List.length_dropLast]
        omega
      exact h (List.prefix_of_prefix_length_le hmark hlonger hlength).isInfix
    have hrest : EndsBefore front mark := fun hfound => h (List.infix_cons_iff.2 (.inr hfound))
    rw [List.cons_append, cutAt?, if_neg hfirst, ih hrest]
    rfl

/-- Cuts a text at marks, one after the other. -/
def fields? : List (List Char) → List Char → Option (List (List Char))
  | [], cs => some [cs]
  | mark :: marks, cs => do
    let (before, behind) ← cutAt? mark cs
    return before :: (← fields? marks behind)

/-- Fields with a mark before each but the first. -/
def framed (first : List Char) : List (List Char × List Char) → List Char
  | [] => first
  | (mark, field) :: others => first ++ (mark ++ framed field others)

/-- Every mark is found first where it stands. -/
def IsFrame (first : List Char) : List (List Char × List Char) → Prop
  | [] => True
  | (mark, field) :: others => (mark ≠ [] ∧ EndsBefore first mark) ∧ IsFrame field others

theorem fields?_framed {first : List Char} {others : List (List Char × List Char)} (h : IsFrame first others) :
    fields? (others.map Prod.fst) (framed first others) = some (first :: others.map Prod.snd) := by
  induction others generalizing first with
  | nil => rfl
  | cons next others ih =>
    obtain ⟨⟨hmark, hends⟩, hothers⟩ := h
    simp [fields?, framed, cutAt?_append hmark hends, ih hothers]

end PhpInspect.Text
