import PhpInspect.Analysis
import PhpInspect.Proofs.FileSystem

/-! # Which files are looked at

An argument reaches the file that it names, or the files that are wanted below the directory that it names. The files
that are looked at are sorted, and each comes as often as there are arguments that reach it.
-/

namespace PhpInspect

variable {fs : FileSystem} {a : Analyzer} {path file other : String} {directory names below : List String}

namespace FileSystem

theorem below?_eq_some : below? directory names = some below ↔ names = directory ++ below ∧ below ≠ [] := by
  rw [below?]
  constructor
  · intro h
    split_ifs at h with htest
    cases h
    rw [Bool.and_eq_true, List.isPrefixOf_iff_prefix, decide_eq_true_iff] at htest
    obtain ⟨⟨below, rfl⟩, hlt⟩ := htest
    rw [List.length_append] at hlt
    rw [List.drop_left]
    exact ⟨rfl, fun hnil => by simp [hnil] at hlt⟩
  · rintro ⟨rfl, hne⟩
    have hlength := List.length_pos_iff.2 hne
    simp [hlength]

theorem mem_filesBelow (hlocate : fs.locate path = .ok (directory, .directory)) : file ∈ fs.filesBelow path ↔
    ∃ names bytes, (directory ++ names, .file bytes) ∈ fs.entries ∧ names ≠ [] ∧ file = names.foldl Path.join path := by
  simp only [filesBelow, hlocate, List.mem_filterMap]
  constructor
  · rintro ⟨⟨found, entry⟩, hmem, hfile⟩
    cases entry with
    | directory => cases hfile
    | file bytes =>
      obtain ⟨names, hbelow, rfl⟩ := Option.map_eq_some_iff.1 hfile
      obtain ⟨rfl, hne⟩ := below?_eq_some.1 hbelow
      exact ⟨names, bytes, hmem, hne, rfl⟩
  · rintro ⟨names, bytes, hmem, hne, rfl⟩
    exact ⟨_, hmem, Option.map_eq_some_iff.2 ⟨names, below?_eq_some.2 ⟨rfl, hne⟩, rfl⟩⟩

/-- No two files below a directory have the same path. -/
theorem pairwise_filesBelow (h : fs.WellFormed) (path : String) :
    (fs.filesBelow path).Pairwise fun file other => Path.compare file other ≠ .eq := by
  rw [filesBelow]
  split
  · next directory hlocate =>
    have hpath := ne_empty_of_locate hlocate
    rw [List.pairwise_filterMap]
    refine List.Pairwise.imp_of_mem ?_ (List.pairwise_map.1 h.nodup)
    rintro ⟨found, entry⟩ ⟨found', entry'⟩ hmem hmem' hne file hfile other hother heq
    cases entry <;> cases entry' <;> try contradiction
    obtain ⟨names, hbelow, rfl⟩ := Option.map_eq_some_iff.1 hfile
    obtain ⟨names', hbelow', rfl⟩ := Option.map_eq_some_iff.1 hother
    obtain ⟨rfl, -⟩ := below?_eq_some.1 hbelow
    obtain ⟨rfl, -⟩ := below?_eq_some.1 hbelow'
    rw [Path.compare_eq_iff,
      Path.components_foldl_join hpath fun name hname => h.isName _ hmem name (List.mem_append_right _ hname),
      Path.components_foldl_join hpath fun name hname => h.isName _ hmem' name (List.mem_append_right _ hname),
      List.append_cancel_left_eq, List.map_inj_right fun _ _ => Path.Component.name.inj] at heq
    exact hne (by rw [heq])
  · exact List.Pairwise.nil

end FileSystem

namespace Analyzer

/-- An argument reaches a file: it names the file, or it names a directory that the file lies below, and the file is
PHP and not excluded. The path of the file is then that of the directory, with the names below it joined. -/
def reaches (a : Analyzer) (fs : FileSystem) (path file : String) : Bool :=
  match fs.locate path, fs.locate file with
  | .ok (_, .file _), _ => file == path
  | .ok (directory, .directory), .ok (found, .file _) =>
    ((FileSystem.below? directory found).any fun names => names.foldl Path.join path == file) &&
      Path.extension? file == some "php" && !a.config.excludes file
  | _, _ => false

theorem value_filesOf (a : Analyzer) (fs : FileSystem) (path : String) : (a.filesOf fs path).value =
    if fs.isFile path then [path]
    else (fs.filesBelow path).filter fun file =>
      fs.isFile file && Path.extension? file == some "php" && !a.config.excludes file := by
  rw [filesOf]
  split_ifs
  · rfl
  · rw [Logged.value_collect]
    induction fs.filesBelow path with
    | nil => rfl
    | cons file files ih =>
      rw [List.flatMap_cons, List.filter_cons, ih]
      by_cases hfile : fs.isFile file = true <;> by_cases hphp : Path.extension? file = some "php" <;>
        by_cases hexcluded : a.config.excludes file = true <;> simp [hfile, hphp, hexcluded]

/-- A file of the walk below a directory leads to a file below it, under the names that were joined. -/
theorem reaches_of_directory (h : fs.WellFormed) (hpath : fs.locate path = .ok (directory, .directory)) :
    (file ∈ fs.filesBelow path ∧ fs.isFile file = true) ∧ Path.extension? file = some "php" ∧
      a.config.excludes file = false ↔ a.reaches fs path file = true := by
  rw [FileSystem.mem_filesBelow hpath, reaches, hpath, FileSystem.isFile]
  cases hfile : fs.locate file with
  | error fault => simp
  | ok target =>
    obtain ⟨found, entry⟩ := target
    cases entry with
    | directory => simp
    | file bytes =>
      simp only [Bool.and_eq_true, Option.any_eq_true, beq_iff_eq, FileSystem.below?_eq_some, Bool.not_eq_true',
        and_true, and_assoc]
      refine and_congr_left fun _ => ?_
      constructor
      · rintro ⟨names, content, hmem, hne, rfl⟩
        have hnames : ∀ name ∈ names, Path.IsName name :=
          fun name hname => h.isName _ hmem name (List.mem_append_right _ hname)
        have hfound := FileSystem.found_of_locate_foldl_join (FileSystem.ne_empty_of_locate hpath) hnames hpath hfile
        exact ⟨names, hfound, hne, rfl⟩
      · rintro ⟨names, rfl, hne, rfl⟩
        exact ⟨names, bytes, FileSystem.mem_entries_of_file (FileSystem.listed_of_locate hfile), hne, rfl⟩

/-- The files of an argument are those that it reaches. -/
theorem mem_filesOf (h : fs.WellFormed) : file ∈ (a.filesOf fs path).value ↔ a.reaches fs path file = true := by
  rw [value_filesOf]
  cases hpath : fs.locate path with
  | error fault => simp [reaches, FileSystem.isFile, FileSystem.filesBelow, hpath]
  | ok target =>
    obtain ⟨directory, entry⟩ := target
    cases entry with
    | file bytes => simp [reaches, FileSystem.isFile, hpath]
    | directory =>
      rw [← reaches_of_directory h hpath, FileSystem.isFile, hpath, if_neg Bool.false_ne_true, List.mem_filter]
      simp [and_assoc]

theorem pairwise_filesOf (h : fs.WellFormed) (a : Analyzer) (path : String) :
    (a.filesOf fs path).value.Pairwise fun file other => Path.compare file other ≠ .eq := by
  rw [value_filesOf]
  split_ifs
  · exact List.pairwise_singleton _ _
  · exact (FileSystem.pairwise_filesBelow h path).filter _

theorem count_filesOf (h : fs.WellFormed) (a : Analyzer) (path file : String) :
    (a.filesOf fs path).value.count file = if a.reaches fs path file then 1 else 0 := by
  have hnodup : (a.filesOf fs path).value.Nodup :=
    (pairwise_filesOf h a path).imp fun hne heq => hne (by rw [heq, Path.compare_eq_iff])
  rw [hnodup.count]
  simp only [mem_filesOf h]

/-! ### All arguments -/

theorem perm_collectFiles (a : Analyzer) (fs : FileSystem) (paths : List String) :
    (a.collectFiles fs paths).value.Perm (paths.flatMap fun path => (a.filesOf fs path).value) := by
  rw [collectFiles, Logged.value_bind, Logged.value_pure, Logged.value_collect]
  exact List.mergeSort_perm _ _

theorem sorted_collectFiles (a : Analyzer) (fs : FileSystem) (paths : List String) :
    (a.collectFiles fs paths).value.Pairwise fun p q => (Path.compare p q).isLE = true := by
  rw [collectFiles, Logged.value_bind, Logged.value_pure]
  apply List.pairwise_mergeSort
  · exact fun p q r => Std.TransCmp.isLE_trans
  · intro p q
    have hswap : Path.compare q p = (Path.compare p q).swap := Std.OrientedCmp.eq_swap
    rw [hswap]
    cases Path.compare p q <;> rfl

theorem count_collectFiles (h : fs.WellFormed) (a : Analyzer) (paths : List String) (file : String) :
    (a.collectFiles fs paths).value.count file = paths.countP fun path => a.reaches fs path file := by
  rw [(perm_collectFiles a fs paths).count_eq]
  induction paths with
  | nil => rfl
  | cons path paths ih =>
    rw [List.flatMap_cons, List.count_append, ih, count_filesOf h, List.countP_cons, Nat.add_comm]

/-- Sorted files come in strict order if no two of them are the same path. -/
theorem strict_collectFiles_iff (h : fs.WellFormed) (a : Analyzer) (paths : List String) :
    (a.collectFiles fs paths).value.Pairwise (fun p q => Path.compare p q = .lt) ↔
      paths.Pairwise fun p q => ∀ file other, a.reaches fs p file = true → a.reaches fs q other = true →
        Path.compare file other ≠ .eq := by
  have hstrict : (a.collectFiles fs paths).value.Pairwise (fun p q => Path.compare p q = .lt) ↔
      (a.collectFiles fs paths).value.Pairwise fun p q => Path.compare p q ≠ .eq := by
    constructor
    · exact fun hlt => hlt.imp fun hpq heq => by simp [hpq] at heq
    · intro hne
      refine ((sorted_collectFiles a fs paths).and hne).imp ?_
      rintro p q ⟨hle, hne⟩
      exact (Ordering.isLE_iff_eq_lt_or_eq_eq.1 hle).resolve_right hne
  have hsymm : ∀ {p q}, Path.compare p q ≠ .eq → Path.compare q p ≠ .eq := by
    intro p q hne heq
    rw [Path.compare_eq_iff] at heq
    exact hne (Path.compare_eq_iff.2 heq.symm)
  rw [hstrict, (perm_collectFiles a fs paths).pairwise_iff hsymm, List.pairwise_flatMap,
    and_iff_right fun path _ => pairwise_filesOf h a path]
  simp only [mem_filesOf h]
  refine ⟨fun hpaths => hpaths.imp ?_, fun hpaths => hpaths.imp ?_⟩
  · exact fun hne file other hfile hother => hne file hfile other hother
  · exact fun hne file hfile other hother => hne file other hfile hother

/-- The issues of an analysis are those of the files of each argument. -/
theorem perm_analyzePaths (a : Analyzer) (fs : FileSystem) (paths : List String) :
    (a.analyzePaths fs paths).value.Perm (paths.flatMap fun path => (a.filesOf fs path).value.flatMap fun file =>
      issuesOf file (a.analyzeFile fs file)) := by
  simp only [analyzePaths, Logged.value_bind, Logged.value_pure, List.flatMap_map]
  rw [← List.flatMap_assoc]
  exact (List.mergeSort_perm _ _).trans ((perm_collectFiles a fs paths).flatMap_right _)

/-- Giving all arguments twice raises every issue twice. -/
theorem count_analyzePaths_append_self (a : Analyzer) (fs : FileSystem) (paths : List String) (issue : Issue) :
    (a.analyzePaths fs (paths ++ paths)).value.count issue = 2 * (a.analyzePaths fs paths).value.count issue := by
  rw [(perm_analyzePaths a fs (paths ++ paths)).count_eq, (perm_analyzePaths a fs paths).count_eq,
    List.flatMap_append, List.count_append]
  omega

/-- The files that are looked at are sorted, and each comes as often as there are arguments that reach it. They come in
strict order just if no two arguments reach the same path. Issues are raised again for every argument that is
repeated. -/
theorem files_by_arguments (fs : FileSystem) (h : fs.WellFormed) (a : Analyzer) (paths : List String) :
    (a.collectFiles fs paths).value.Pairwise (fun p q => (Path.compare p q).isLE = true) ∧
    (∀ file, (a.collectFiles fs paths).value.count file = paths.countP fun path => a.reaches fs path file) ∧
    ((a.collectFiles fs paths).value.Pairwise (fun p q => Path.compare p q = .lt) ↔
      paths.Pairwise fun p q => ∀ file other, a.reaches fs p file = true → a.reaches fs q other = true →
        Path.compare file other ≠ .eq) ∧
    ∀ issue, (a.analyzePaths fs (paths ++ paths)).value.count issue =
      2 * (a.analyzePaths fs paths).value.count issue := by
  refine ⟨sorted_collectFiles a fs paths, count_collectFiles h a paths, strict_collectFiles_iff h a paths, ?_⟩
  exact count_analyzePaths_append_self a fs paths

/-- A directory in a directory, with a file in each that is wanted. -/
def nestedFiles : FileSystem := .ofEntries
  [(["src", "a.php"], .file "<?php function f() { throw $x; }".toUTF8), (["src", "lib", "b.php"], .file .empty),
    (["src", "lib", "c.txt"], .file .empty)] []

theorem wellFormed_nestedFiles : nestedFiles.WellFormed := by
  apply FileSystem.wellFormed_ofEntries
  have hnames : ["src", "a.php", "lib", "b.php", "c.txt"].Forall Path.IsName := by
    refine ⟨?_, ?_, ?_, ?_, ?_⟩ <;> constructor <;> decide
  intro e he name hname
  apply List.forall_iff_forall_mem.1 hnames
  simp only [List.mem_cons, List.not_mem_nil, or_false] at he
  rcases he with rfl | rfl | rfl <;> simp at hname ⊢ <;> tauto

theorem nestedFiles_by_arguments : nestedFiles.WellFormed ∧
    ((Analyzer.ofConfig .empty).value.collectFiles nestedFiles ["src", "src/lib"]).value.count "src/lib/b.php" = 2 ∧
    ((Analyzer.ofConfig .empty).value.collectFiles nestedFiles ["src", "src/lib"]).value.count "src/a.php" = 1 := by
  have hfiles := files_by_arguments nestedFiles wellFormed_nestedFiles (Analyzer.ofConfig .empty).value
    ["src", "src/lib"]
  refine ⟨wellFormed_nestedFiles, ?_, ?_⟩
  · rw [hfiles.2.1]
    decide +kernel
  · rw [hfiles.2.1]
    decide +kernel

/-- A file that is named twice comes twice, and so does what is found in it. -/
theorem repeated_file :
    ¬((Analyzer.ofConfig .empty).value.collectFiles nestedFiles ["src/a.php", "src/a.php"]).value.Pairwise
      (fun p q => Path.compare p q = .lt) ∧
    ((Analyzer.ofConfig .empty).value.analyzePaths nestedFiles ["src/a.php", "src/a.php"]).value.length = 2 ∧
    ((Analyzer.ofConfig .empty).value.analyzePaths nestedFiles ["src/a.php"]).value.length = 1 := by
  refine ⟨?_, ?_, ?_⟩
  · rw [strict_collectFiles_iff wellFormed_nestedFiles]
    intro hpaths
    exact List.rel_of_pairwise_cons hpaths List.mem_cons_self "src/a.php" "src/a.php" (by decide +kernel)
      (by decide +kernel) (Path.compare_eq_iff.2 rfl)
  · rw [(perm_analyzePaths _ _ _).length_eq]
    decide +kernel
  · rw [(perm_analyzePaths _ _ _).length_eq]
    decide +kernel

end Analyzer

end PhpInspect
