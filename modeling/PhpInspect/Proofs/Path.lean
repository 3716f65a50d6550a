import Mathlib.Order.Defs.LinearOrder
import PhpInspect.Path

/-! # Paths as lists of components

The order of paths is the lexicographic order of their components, so paths that differ in no component are the
same path for it. Joining a name to a path adds one component.
-/

namespace PhpInspect

/-! ### Segments -/

namespace Text

variable {separator : Char} {cs ds : List Char}

theorem segments_append (cs ds : List Char) :
    segments separator (cs ++ separator :: ds) = segments separator cs ++ segments separator ds := by
  induction cs with
  | nil => simp [segments]
  | cons c cs ih =>
    rw [List.cons_append, segments, ih, segments]
    split_ifs
    · rfl
    · cases hsegments : segments separator cs with
      | nil => exact absurd hsegments (segments_ne_nil separator cs)
      | cons segment rest => rfl

theorem segments_of_not_mem (h : separator ∉ cs) : segments separator cs = [cs] := by
  induction cs with
  | nil => rfl
  | cons c cs ih =>
    rw [List.mem_cons, not_or] at h
    rw [segments, if_neg (Ne.symm h.1), ih h.2]

theorem segments_eq_singleton_nil : segments separator cs = [[]] ↔ cs = [] := by
  constructor
  · intro h
    cases cs with
    | nil => rfl
    | cons c cs =>
      rw [segments] at h
      split_ifs at h
      · exact absurd (List.cons.inj h).2 (segments_ne_nil separator cs)
      · split at h <;> cases h
  · rintro rfl
    rfl

end Text

namespace Path

variable {p q path name : String} {names : List String}

/-! ### The order of paths -/

instance : Std.TransCmp Component.compare :=
  inferInstanceAs (Std.TransCmp (compareLex (compareOn Component.rank) (compareOn Component.text)))

instance : Std.LawfulEqCmp Component.compare where
  compare_self := Std.ReflCmp.compare_self
  eq_of_compare {a b} h := by
    obtain ⟨hrank, htext⟩ := Ordering.then_eq_eq.1 h
    have hrank := Std.LawfulEqCmp.eq_of_compare hrank
    have htext := Std.LawfulEqCmp.eq_of_compare htext
    cases a <;> cases b <;> simp_all [Component.rank, Component.text]

theorem compareComponents_eq : compareComponents = List.compareLex Component.compare := by
  funext as bs
  induction as generalizing bs with
  | nil => cases bs <;> rfl
  | cons a as ih =>
    cases bs with
    | nil => rfl
    | cons b bs => rw [compareComponents, ih, List.compareLex_cons_cons]

theorem compare_eq_compareLex (p q : String) :
    Path.compare p q = List.compareLex Component.compare (components p) (components q) := by
  rw [Path.compare, compareComponents_eq]

/-- Paths are the same for the order if they have the same components. -/
theorem compare_eq_iff : Path.compare p q = .eq ↔ components p = components q := by
  rw [compare_eq_compareLex]
  exact Std.LawfulEqCmp.compare_eq_iff_eq

instance : Std.TransCmp Path.compare where
  eq_swap {p q} := by
    rw [compare_eq_compareLex, compare_eq_compareLex]
    exact Std.OrientedCmp.eq_swap
  isLE_trans {p q r} hpq hqr := by
    rw [compare_eq_compareLex] at *
    exact Std.TransCmp.isLE_trans hpq hqr

/-! ### Joining -/

/-- A name of a file or directory. -/
structure IsName (name : String) : Prop where
  nonempty : name ≠ ""
  ne_here : name ≠ "."
  ne_up : name ≠ ".."
  slash : '/' ∉ name.toList

theorem component?_of_isName (h : IsName name) : component? name.toList = some (.name name) := by
  unfold component?
  split
  · next heq => exact absurd (String.toList_inj.1 (heq.trans String.toList_empty.symm)) h.nonempty
  · next heq => exact absurd (String.toList_inj.1 heq) h.ne_here
  · next heq => exact absurd (String.toList_inj.1 heq) h.ne_up
  · rw [String.ofList_toList]

theorem endsWith_slash_iff : path.endsWith "/" = true ↔ ∃ cs, path.toList = cs ++ ['/'] := by
  rw [String.endsWith_eq_endsWith_toSlice, String.Slice.endsWith_string_iff, String.copy_toSlice]
  exact ⟨fun ⟨cs, h⟩ => ⟨cs, h.symm⟩, fun ⟨cs, h⟩ => ⟨cs, h.symm⟩⟩

/-- Joining a name adds a segment, in the place of an empty one if the path ends with a slash. -/
theorem segments_join (hpath : path ≠ "") (hname : '/' ∉ name.toList) : ∃ front middle,
    (Text.segments '/' path.toList = front :: middle ∨ Text.segments '/' path.toList = front :: (middle ++ [[]])) ∧
    Text.segments '/' (join path name).toList = front :: (middle ++ [name.toList]) := by
  have hempty : path.isEmpty = false := by simpa using hpath
  rw [join, hempty]
  by_cases hslash : path.endsWith "/" = true
  · obtain ⟨cs, hcs⟩ := endsWith_slash_iff.1 hslash
    obtain ⟨front, middle, hsegments⟩ := List.exists_cons_of_ne_nil (Text.segments_ne_nil '/' cs)
    refine ⟨front, middle, .inr ?_, ?_⟩
    · rw [hcs, Text.segments_append, hsegments]
      rfl
    · simp only [Bool.false_eq_true, if_false, if_pos hslash, String.toList_append, hcs, List.append_assoc,
        List.singleton_append]
      rw [Text.segments_append, hsegments, Text.segments_of_not_mem hname, List.cons_append]
  · obtain ⟨front, middle, hsegments⟩ := List.exists_cons_of_ne_nil (Text.segments_ne_nil '/' path.toList)
    refine ⟨front, middle, .inl hsegments, ?_⟩
    have hlist : (path ++ "/" ++ name).toList = path.toList ++ '/' :: name.toList := by
      simp [String.toList_append]
    simp only [Bool.false_eq_true, if_false, if_neg hslash]
    rw [hlist, Text.segments_append, hsegments, Text.segments_of_not_mem hname, List.cons_append]

/-- What the segment at the front of a path stands for. -/
def frontComponents : List Char → List Component
  | [] => [.root]
  | ['.'] => [.here]
  | cs => (component? cs).toList

theorem components_eq {front : List Char} {rest : List (List Char)} (hpath : path ≠ "")
    (h : Text.segments '/' path.toList = front :: rest) :
    components path = frontComponents front ++ rest.filterMap component? := by
  have hne : front :: rest ≠ [[]] := by
    rw [← h, ne_eq, Text.segments_eq_singleton_nil]
    exact fun hnil => hpath (String.toList_inj.1 (hnil.trans String.toList_empty.symm))
  unfold components frontComponents
  rw [h]
  split
  · next heq => cases heq
  · next heq => exact absurd heq hne
  · next heq =>
    cases heq
    rfl
  · next heq =>
    cases heq
    rfl
  · next hroot hhere =>
    split
    · exact (hroot rest rfl).elim
    · exact (hhere rest rfl).elim
    · rw [List.filterMap_cons]
      cases component? front <;> rfl

theorem exists_join_eq_append (path name : String) : ∃ behind, join path name = path ++ behind := by
  rw [join]
  split_ifs with hempty
  · rw [String.isEmpty_iff.1 hempty]
    exact ⟨name, String.empty_append.symm⟩
  · exact ⟨name, rfl⟩
  · exact ⟨"/" ++ name, String.append_assoc⟩

theorem join_ne_empty (hpath : path ≠ "") : join path name ≠ "" := by
  obtain ⟨behind, h⟩ := exists_join_eq_append path name
  rw [h, ne_eq, String.append_eq_empty_iff]
  exact fun hempty => hpath hempty.1

theorem foldl_join_ne_empty (hpath : path ≠ "") (names : List String) : names.foldl join path ≠ "" := by
  induction names generalizing path with
  | nil => exact hpath
  | cons name names ih => exact ih (join_ne_empty hpath)

/-- Joining a name to a path adds one component. -/
theorem components_join (hpath : path ≠ "") (hname : IsName name) :
    components (join path name) = components path ++ [.name name] := by
  obtain ⟨front, middle, hsegments, hjoin⟩ := segments_join hpath hname.slash
  have hlast : [name.toList].filterMap component? = [.name name] := by
    rw [List.filterMap_cons, component?_of_isName hname]
    rfl
  have hnone : [[]].filterMap component? = [] := rfl
  rw [components_eq (join_ne_empty hpath) hjoin, List.filterMap_append, hlast, ← List.append_assoc]
  rcases hsegments with hsegments | hsegments
  · rw [components_eq hpath hsegments]
  · rw [components_eq hpath hsegments, List.filterMap_append, hnone, List.append_nil]

theorem components_foldl_join (hpath : path ≠ "") (hnames : ∀ name ∈ names, IsName name) :
    components (names.foldl join path) = components path ++ names.map .name := by
  induction names generalizing path with
  | nil => simp
  | cons name names ih =>
    have hname := hnames name List.mem_cons_self
    rw [List.foldl_cons, ih (join_ne_empty hpath) fun n hn => hnames n (List.mem_cons_of_mem _ hn),
      components_join hpath hname, List.append_assoc, List.map_cons, List.singleton_append]

end Path

end PhpInspect
