import Mathlib.Data.Finset.Card
import Mathlib.Data.List.Sort
import PhpInspect.Proofs.Report.JsonText
import PhpInspect.Proofs.Text.ByteOrder
import PhpInspect.Report.Format

/-! # Issues by file

Reports for readers and for programs list the issues of every file together. They put one issue after the other with
its file. No issue is lost or repeated on the way, and the numbers that a report gives are those of the issues it was
made from.
-/

namespace PhpInspect

namespace Issue

variable {issues : List Issue} {groups : List (String × List Issue)} {g : String × List Issue} {i : Issue}

/-! ### One more issue -/

theorem fst_of_mem_addTo (hg : g ∈ addTo groups i) : g.1 = i.file ∨ ∃ g' ∈ groups, g'.1 = g.1 := by
  fun_induction addTo groups i with
  | case1 => exact .inl (by simp_all)
  | case2 file members rest hlt =>
    rcases List.mem_cons.1 hg with rfl | hg
    · exact .inl rfl
    · exact .inr ⟨g, hg, rfl⟩
  | case3 members rest hlt =>
    rcases List.mem_cons.1 hg with rfl | hg
    · exact .inl rfl
    · exact .inr ⟨g, List.mem_cons_of_mem _ hg, rfl⟩
  | case4 file members rest hlt hne ih =>
    rcases List.mem_cons.1 hg with rfl | hg
    · exact .inr ⟨_, List.mem_cons_self, rfl⟩
    · exact (ih hg).imp_right fun ⟨g', hg', heq⟩ => ⟨g', List.mem_cons_of_mem _ hg', heq⟩

theorem increasing_addTo (h : groups.Pairwise fun g g' => g.1 < g'.1) (i : Issue) :
    (addTo groups i).Pairwise fun g g' => g.1 < g'.1 := by
  fun_induction addTo groups i with
  | case1 => exact List.pairwise_singleton _ _
  | case2 file members rest hlt =>
    refine List.pairwise_cons.2 ⟨fun g hg => ?_, h⟩
    rcases List.mem_cons.1 hg with rfl | hg
    · exact hlt
    · exact String.lt_trans hlt (List.rel_of_pairwise_cons h hg)
  | case3 members rest hlt =>
    exact List.pairwise_cons.2 ⟨fun g hg => List.rel_of_pairwise_cons h hg, h.of_cons⟩
  | case4 file members rest hlt hne ih =>
    refine List.pairwise_cons.2 ⟨fun g hg => ?_, ih h.of_cons⟩
    rcases fst_of_mem_addTo hg with hfile | ⟨g', hg', hfile⟩
    · rw [hfile]
      exact String.not_le.1 fun hle => hne (String.le_antisymm hle (String.not_lt.1 hlt))
    · rw [← hfile]
      exact List.rel_of_pairwise_cons h hg'

/-- What a group is once an issue was added: it was there and is of another file, or it is that of the issue, which is
its last member now, or its only one. -/
theorem mem_addTo (h : groups.Pairwise fun g g' => g.1 < g'.1) (hg : g ∈ addTo groups i) :
    (g ∈ groups ∧ g.1 ≠ i.file) ∨ (∃ members, (i.file, members) ∈ groups ∧ g = (i.file, members ++ [i])) ∨
      ((∀ g' ∈ groups, g'.1 ≠ i.file) ∧ g = (i.file, [i])) := by
  fun_induction addTo groups i with
  | case1 => exact .inr (.inr ⟨nofun, List.mem_singleton.1 hg⟩)
  | case2 file members rest hlt =>
    -- All files that are there come behind that of the issue.
    have hbehind : ∀ g' ∈ (file, members) :: rest, g'.1 ≠ i.file := by
      intro g' hg' heq
      rcases List.mem_cons.1 hg' with rfl | hg'
      · exact String.lt_irrefl _ (heq ▸ hlt)
      · exact String.lt_irrefl _ (heq ▸ String.lt_trans hlt (List.rel_of_pairwise_cons h hg'))
    rcases List.mem_cons.1 hg with rfl | hg
    · exact .inr (.inr ⟨hbehind, rfl⟩)
    · exact .inl ⟨hg, hbehind g hg⟩
  | case3 members rest hlt =>
    rcases List.mem_cons.1 hg with rfl | hg
    · exact .inr (.inl ⟨members, List.mem_cons_self, rfl⟩)
    · refine .inl ⟨List.mem_cons_of_mem _ hg, fun hfile => ?_⟩
      exact String.lt_irrefl _ (hfile ▸ List.rel_of_pairwise_cons h hg)
  | case4 file members rest hlt hne ih =>
    rcases List.mem_cons.1 hg with rfl | hg
    · exact .inl ⟨List.mem_cons_self, fun hfile => hne hfile.symm⟩
    · rcases ih h.of_cons hg with ⟨hold, hfile⟩ | ⟨members', hold, heq⟩ | ⟨hnew, heq⟩
      · exact .inl ⟨List.mem_cons_of_mem _ hold, hfile⟩
      · exact .inr (.inl ⟨members', List.mem_cons_of_mem _ hold, heq⟩)
      · exact .inr (.inr ⟨List.forall_mem_cons.2 ⟨fun hfile => hne hfile.symm, hnew⟩, heq⟩)

theorem addTo_perm (groups : List (String × List Issue)) (i : Issue) :
    ((addTo groups i).flatMap Prod.snd).Perm (groups.flatMap Prod.snd ++ [i]) := by
  fun_induction addTo groups i with
  | case1 => exact .refl _
  | case2 file members rest hlt => exact (List.perm_append_singleton i _).symm
  | case3 members rest hlt =>
    rw [List.flatMap_cons, List.flatMap_cons, List.append_assoc, List.append_assoc]
    exact List.perm_append_comm.append_left _
  | case4 file members rest hlt hne ih =>
    rw [List.flatMap_cons, List.flatMap_cons, List.append_assoc]
    exact ih.append_left _

/-! ### Groups of issues -/

/-- Issues by file: files in the order of their bytes, each with its issues as they came, no file without issues and
every issue once. -/
structure IsGrouping (issues : List Issue) (groups : List (String × List Issue)) : Prop where
  increasing : groups.Pairwise fun g g' => Text.bytes g.1 < Text.bytes g'.1
  nonempty : ∀ g ∈ groups, g.2 ≠ []
  members : ∀ g ∈ groups, g.2 = issues.filter fun i => i.file == g.1
  perm : (groups.flatMap Prod.snd).Perm issues

namespace IsGrouping

variable {groups' : List (String × List Issue)}

theorem increasing_names (h : IsGrouping issues groups) : groups.Pairwise fun g g' => g.1 < g'.1 :=
  h.increasing.imp Text.bytes_lt_iff.1

theorem mem_names (h : IsGrouping issues groups) (file : String) :
    file ∈ groups.map Prod.fst ↔ file ∈ issues.map Issue.file := by
  constructor
  · intro hfile
    obtain ⟨g, hg, rfl⟩ := List.mem_map.1 hfile
    obtain ⟨i, hi⟩ := List.exists_mem_of_ne_nil g.2 (h.nonempty g hg)
    rw [h.members g hg] at hi
    obtain ⟨hi, hname⟩ := List.mem_filter.1 hi
    exact List.mem_map.2 ⟨i, hi, by simpa using hname⟩
  · intro hfile
    obtain ⟨i, hi, rfl⟩ := List.mem_map.1 hfile
    obtain ⟨g, hg, hig⟩ := List.mem_flatMap.1 (h.perm.mem_iff.2 hi)
    rw [h.members g hg] at hig
    have hname : i.file = g.1 := by simpa using (List.mem_filter.1 hig).2
    exact List.mem_map.2 ⟨g, hg, hname.symm⟩

/-- Issues stay grouped when one more is put with its file. -/
theorem addTo (h : IsGrouping issues groups) (i : Issue) : IsGrouping (issues ++ [i]) (addTo groups i) where
  increasing := (increasing_addTo h.increasing_names i).imp Text.bytes_lt
  nonempty g hg := by
    rcases mem_addTo h.increasing_names hg with ⟨hold, -⟩ | ⟨members, -, rfl⟩ | ⟨-, rfl⟩
    · exact h.nonempty g hold
    · exact List.append_ne_nil_of_right_ne_nil _ (List.cons_ne_nil _ _)
    · exact List.cons_ne_nil _ _
  members g hg := by
    have hown : [i].filter (fun j => j.file == i.file) = [i] := by simp
    rw [List.filter_append]
    rcases mem_addTo h.increasing_names hg with ⟨hold, hne⟩ | ⟨members, hold, rfl⟩ | ⟨hnew, rfl⟩
    · rw [h.members g hold, List.filter_cons_of_neg (by simpa using Ne.symm hne), List.filter_nil, List.append_nil]
    · rw [hown, ← h.members _ hold]
    · -- The file is new, so no issue before was of it.
      have hnone : issues.filter (fun j => j.file == i.file) = [] := by
        refine List.filter_eq_nil_iff.2 fun j hj hfile => ?_
        have hname := (h.mem_names i.file).2 (List.mem_map.2 ⟨j, hj, by simpa using hfile⟩)
        obtain ⟨g', hg', heq⟩ := List.mem_map.1 hname
        exact hnew g' hg' heq
      rw [hnone, hown, List.nil_append]
  perm := (addTo_perm groups i).trans (h.perm.append_right [i])

theorem foldl_addTo (h : IsGrouping issues groups) (more : List Issue) :
    IsGrouping (issues ++ more) (more.foldl Issue.addTo groups) := by
  induction more generalizing issues groups with
  | nil => rwa [List.append_nil]
  | cons i more ih =>
    rw [List.append_cons, List.foldl_cons]
    exact ih (h.addTo i)

theorem names_eq (h : IsGrouping issues groups) (h' : IsGrouping issues groups') :
    groups.map Prod.fst = groups'.map Prod.fst := by
  have hincreasing := List.pairwise_map.2 h.increasing_names
  refine hincreasing.eq_of_mem_iff (List.pairwise_map.2 h'.increasing_names) fun file => ?_
  rw [h.mem_names, h'.mem_names]

theorem eq_map_names (h : IsGrouping issues groups) :
    groups = (groups.map Prod.fst).map fun file => (file, issues.filter fun i => i.file == file) := by
  rw [List.map_map]
  conv_lhs => rw [← List.map_id groups]
  refine List.map_congr_left fun g hg => ?_
  exact Prod.ext rfl (h.members g hg)

/-- There is one way to group issues. -/
theorem unique (h : IsGrouping issues groups) (h' : IsGrouping issues groups') : groups = groups' := by
  rw [h.eq_map_names, h.names_eq h', ← h'.eq_map_names]

theorem length_eq (h : IsGrouping issues groups) : groups.length = (issues.map Issue.file).toFinset.card := by
  have hnodup : (groups.map Prod.fst).Nodup := (List.pairwise_map.2 h.increasing_names).imp String.ne_of_lt
  rw [← List.length_map Prod.fst, ← List.toFinset_card_of_nodup hnodup]
  congr 1
  ext file
  rw [List.mem_toFinset, List.mem_toFinset, h.mem_names]

end IsGrouping

theorem isGrouping_nil : IsGrouping [] [] := ⟨.nil, nofun, nofun, .nil⟩

theorem isGrouping_groups (issues : List Issue) : IsGrouping issues (Issue.groups issues) :=
  isGrouping_nil.foldl_addTo issues

theorem isGrouping_iff : IsGrouping issues groups ↔ groups = Issue.groups issues :=
  ⟨fun h => h.unique (isGrouping_groups issues), fun h => h ▸ isGrouping_groups issues⟩

/-- The loop of the JSON report puts violations with their files and keeps the other issues as they came. -/
theorem collect_eq (issues : List Issue) :
    Report.collect issues = (Issue.groups (issues.filter (·.isViolation)), issues.filter (!·.isViolation)) := by
  have hloop : ∀ (files : List (String × List Issue)) (errors : List Issue),
      issues.foldl Report.sortOut (files, errors) =
        ((issues.filter (·.isViolation)).foldl Issue.addTo files, errors ++ issues.filter (!·.isViolation)) := by
    induction issues with
    | nil => simp
    | cons i issues ih =>
      intro files errors
      by_cases hi : i.isViolation = true <;> simp [Report.sortOut, hi, ih]
  exact hloop [] []

theorem foldl_length_eq (groups : List (String × List Issue)) :
    groups.foldl (fun n group => n + group.2.length) 0 = (groups.flatMap (·.2)).length := by
  have hsum : ∀ n, groups.foldl (fun n group => n + group.2.length) n = n + (groups.flatMap (·.2)).length := by
    induction groups with
    | nil => simp
    | cons group groups ih => simp [ih, Nat.add_assoc]
  rw [hsum, Nat.zero_add]

/-! ### The reports -/

theorem isViolation_eq (i : Issue) : i.isViolation = decide ('.' ∉ i.rule.toList) := by simp [isViolation]

theorem errorCount_add_warningCount (issues : List Issue) :
    errorCount issues + warningCount issues = issues.length := by
  rw [errorCount, warningCount, List.length_eq_countP_add_countP fun i : Issue => i.severity == .error]
  congr 2
  ext i
  cases i.severity <;> rfl

theorem errorCount_eq (issues : List Issue) :
    errorCount issues = (issues.filter fun i => i.severity = .error).length := List.countP_eq_length_filter

theorem warningCount_eq (issues : List Issue) :
    warningCount issues = (issues.filter fun i => i.severity = .warning).length := List.countP_eq_length_filter

theorem counted_eq (n : Nat) (noun : String) :
    Report.counted n noun = toString n ++ if n = 1 then " " ++ noun else " " ++ noun ++ "s" := by
  by_cases hn : n = 1 <;> simp [Report.counted, hn, String.append_assoc]

/-- An issue whose rule has no dot is a violation, and any other is an error. The JSON report holds the violations by
file and the errors as they came, so that together they are all issues; its totals count both, and the files with
violations. The table holds all issues by file, and counts each as an error or as a warning. In both, files are in the
order of their bytes and the issues of a file as they came. -/
theorem reports_conserve_issues (issues : List Issue) :
    let violations := issues.filter fun i => '.' ∉ i.rule.toList
    let errors := issues.filter fun i => '.' ∈ i.rule.toList
    let errorCount := (issues.filter fun i => i.severity = .error).length
    let warningCount := (issues.filter fun i => i.severity = .warning).length
    ∃ files groups, (∀ gs, IsGrouping violations gs ↔ gs = files) ∧ (∀ gs, IsGrouping issues gs ↔ gs = groups) ∧
      (files.flatMap Prod.snd ++ errors).Perm issues ∧ violations.length + errors.length = issues.length ∧
      Json.Writes (.object [
        ("version", .string "0.1.0"),
        ("totals", .object [("violations", .number violations.length),
          ("files", .number (violations.map Issue.file).toFinset.card), ("errors", .number errors.length)]),
        ("files", .array (files.map fun g => .object [("file", .string g.1),
          ("violations", .array (g.2.map fun i => .object [("beginLine", .number i.line),
            ("endLine", .number i.endLine), ("rule", .string i.rule),
            ("severity", .string (match i.severity with | .error => "error" | .warning => "warning")),
            ("description", .string i.message)]))])),
        ("errors", .array (errors.map fun i => .object [("file", .string i.file), ("line", .number i.line),
          ("kind", .string i.rule), ("message", .string i.message)]))]) (Report.json issues).toList ∧
      Report.table issues =
        (if issues = [] then " [OK] No violations\n"
        else String.join (groups.map fun g => "\n -- " ++ g.1 ++ " --\n\n" ++
            String.join (g.2.map fun i => " " ++ (match i.severity with | .error => "ERROR" | .warning => "WARNING") ++
              " Line " ++ toString i.line ++ ": " ++ i.message ++ "\n       Rule: " ++ i.rule ++ "\n"))
          ++ "\n [ERROR] Found " ++ (toString errorCount ++ if errorCount = 1 then " error" else " errors") ++ "\n"
          ++ if warningCount = 0 then ""
            else " [WARNING] Found " ++ (toString warningCount ++ if warningCount = 1 then " warning" else " warnings")
              ++ "\n") ∧
      errorCount + warningCount = issues.length := by
  intro violations errors
  rw [← errorCount_eq, ← warningCount_eq]
  have hcollect : Report.collect issues = (Issue.groups violations, errors) := by
    simp [collect_eq, isViolation_eq, violations, errors]
  have hfiles := isGrouping_groups violations
  have hparts : (violations ++ errors).Perm issues := by
    simpa [violations, errors] using List.filter_append_perm (fun i : Issue => decide ('.' ∉ i.rule.toList)) issues
  refine ⟨Issue.groups violations, Issue.groups issues, fun gs => isGrouping_iff, fun gs => isGrouping_iff,
    (hfiles.perm.append_right errors).trans hparts, ?_, ?_, ?_, errorCount_add_warningCount issues⟩
  · rw [← List.length_append, hparts.length_eq]
  · refine Json.writes_text_of_eq ?_ 0
    rw [Report.jsonDocument, hcollect]
    dsimp only
    rw [foldl_length_eq, hfiles.perm.length_eq, hfiles.length_eq]
    rfl
  · rw [Report.table]
    simp only [counted_eq, List.isEmpty_iff, beq_iff_eq]
    rfl

end Issue

end PhpInspect
