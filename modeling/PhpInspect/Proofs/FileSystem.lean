import Mathlib.Data.List.Induction
import Mathlib.Data.List.Nodup
import PhpInspect.FileSystem
import PhpInspect.Proofs.Outcome
import PhpInspect.Proofs.Path

/-! # Where paths lead

A path leads through its segments, so a path with names joined to it leads to what is found from the end of the path
under these names.
-/

namespace PhpInspect.FileSystem

variable {fs : FileSystem} {names found directory : List String} {segments rest xs ys : List (List Char)}
  {entry : FileEntry} {target : List String × FileEntry} {path name : String}

/-- Each entry is listed once, under names that files can have. -/
structure WellFormed (fs : FileSystem) : Prop where
  nodup : (fs.entries.map (·.1)).Nodup
  isName : ∀ e ∈ fs.entries, ∀ name ∈ e.1, Path.IsName name

theorem wellFormed_ofEntries {entries : List (List String × FileEntry)} {home : List String}
    (h : ∀ e ∈ entries, ∀ name ∈ e.1, Path.IsName name) : (ofEntries entries home).WellFormed := by
  induction entries with
  | nil => exact ⟨List.nodup_nil, nofun⟩
  | cons e entries ih =>
    have ih := ih fun e he => h e (List.mem_cons_of_mem _ he)
    constructor
    · refine List.nodup_cons.2 ⟨?_, ?_⟩
      · intro hmem
        obtain ⟨other, hother, heq⟩ := List.mem_map.1 hmem
        have hne := (List.mem_filter.1 hother).2
        rw [heq] at hne
        simp at hne
      · exact ih.nodup.sublist (List.filter_sublist.map _)
    · intro other hother
      rcases List.mem_cons.1 hother with rfl | hother
      · exact h other List.mem_cons_self
      · exact ih.isName other (List.mem_filter.1 hother).1

theorem mem_entries_of_file {bytes : ByteArray} (h : fs.entryAt? names = some (.file bytes)) :
    (names, .file bytes) ∈ fs.entries := by
  rw [entryAt?] at h
  split at h
  · next entry hfind =>
    cases h
    obtain rfl : _ = names := by simpa using List.find?_some hfind
    exact List.mem_of_find?_eq_some hfind
  · split_ifs at h
    cases h

/-! ### Following segments -/

theorem listed_of_follow (h : fs.follow names segments = .ok (found, entry)) : fs.entryAt? found = some entry := by
  fun_induction follow fs names segments <;> simp_all

/-- Segments are followed one after another. -/
theorem follow_append : fs.follow names (xs ++ ys) = (do fs.follow (← fs.follow names xs).1 ys) := by
  fun_induction follow fs names xs with
  | case1 names xs hnone =>
    rw [follow.eq_1 fs names _ hnone]
    rfl
  | case2 names entry hentry => rfl
  | case3 names bytes segment rest hentry =>
    rw [List.cons_append, follow.eq_3 fs names _ _ bytes hentry]
    rfl
  | case4 names rest hentry ih => rw [List.cons_append, follow.eq_4 fs names _ hentry, ih]
  | case5 names rest hentry ih => rw [List.cons_append, follow.eq_5 fs names _ hentry, ih]
  | case6 names rest hentry ih => rw [List.cons_append, follow.eq_6 fs names _ hentry, ih]
  | case7 names rest hentry cs hempty hhere hup name hlong =>
    rw [List.cons_append, follow.eq_7 fs names cs _ hentry hempty hhere hup, if_pos hlong]
    rfl
  | case8 names rest hentry cs hempty hhere hup name hlong ih =>
    rw [List.cons_append, follow.eq_7 fs names cs _ hentry hempty hhere hup, if_neg hlong, ih]

/-- A name leads from a directory to what has this name in it. -/
theorem follow_cons_name (hname : Path.IsName name) (h : fs.follow names (name.toList :: rest) = .ok target) :
    fs.entryAt? names = some .directory ∧ fs.follow (names ++ [name]) rest = .ok target := by
  cases hentry : fs.entryAt? names with
  | none =>
    rw [follow.eq_1 fs names _ hentry] at h
    cases h
  | some entry =>
    cases entry with
    | file bytes =>
      rw [follow.eq_3 fs names _ _ bytes hentry] at h
      cases h
    | directory =>
      refine ⟨rfl, ?_⟩
      rw [follow.eq_7 fs names _ _ hentry (fun heq => hname.nonempty (String.toList_inj.1 heq))
        (fun heq => hname.ne_here (String.toList_inj.1 heq)) fun heq => hname.ne_up (String.toList_inj.1 heq),
        String.ofList_toList] at h
      split_ifs at h
      exact h

theorem follow_slash (h : fs.follow names xs = .ok (found, .directory)) :
    fs.follow names (xs ++ [[]]) = .ok (found, .directory) := by
  have hentry := listed_of_follow h
  rw [follow_append, h]
  change fs.follow found [[]] = _
  rw [follow.eq_4 fs found _ hentry, follow.eq_2 fs found _ hentry]

theorem found_of_follow_nil (h : fs.follow names [] = .ok (found, entry)) : found = names := by
  cases hentry : fs.entryAt? names with
  | none =>
    rw [follow.eq_1 fs names _ hentry] at h
    cases h
  | some e =>
    rw [follow.eq_2 fs names e hentry] at h
    cases h
    rfl

/-! ### Joined names -/

/-- Where a path with some front begins, and what of the front is to be followed from there. -/
def origin (fs : FileSystem) (front : List Char) : List String × List (List Char) :=
  if front = [] then ([], []) else (fs.home, [front])

theorem locate_eq_ok_iff {front : List Char} (h : Text.segments '/' path.toList = front :: rest) :
    fs.locate path = .ok target ↔ '\x00' ∉ path.toList ∧ path.utf8ByteSize < 4096 ∧ path ≠ "" ∧
      fs.follow (fs.origin front).1 ((fs.origin front).2 ++ rest) = .ok target := by
  have hempty : path = "" ↔ front :: rest = [[]] := by
    rw [← h, Text.segments_eq_singleton_nil, String.toList_eq_nil_iff]
  rw [locate, List.contains_eq_mem, h]
  by_cases hnul : '\x00' ∈ path.toList
  · simp [hnul]
  by_cases hsize : path.utf8ByteSize < 4096
  · simp only [hnul, decide_false, Bool.false_eq_true, if_false, Nat.not_le.2 hsize, not_false_eq_true, hsize,
      true_and, ne_eq, hempty, origin]
    split
    · next heq => simp [heq]
    · next hne heq =>
      cases heq
      simp [show rest ≠ [] from fun hrest => hne (by rw [hrest])]
    · next hne hroot =>
      have hfront : front ≠ [] := fun hfront => hroot rest (by rw [hfront])
      simp [hfront]
  · simp [hnul, hsize, Nat.not_lt.1 hsize]

theorem listed_of_locate (h : fs.locate path = .ok (found, entry)) : fs.entryAt? found = some entry := by
  obtain ⟨front, rest, hsegments⟩ := List.exists_cons_of_ne_nil (Text.segments_ne_nil '/' path.toList)
  exact listed_of_follow ((locate_eq_ok_iff hsegments).1 h).2.2.2

theorem ne_empty_of_locate (h : fs.locate path = .ok target) : path ≠ "" := by
  obtain ⟨front, rest, hsegments⟩ := List.exists_cons_of_ne_nil (Text.segments_ne_nil '/' path.toList)
  exact ((locate_eq_ok_iff hsegments).1 h).2.2.1

/-- What a joined path leads to lies under the name in the directory to which the path leads. -/
theorem exists_of_locate_join (hpath : path ≠ "") (hname : Path.IsName name)
    (h : fs.locate (Path.join path name) = .ok (found, entry)) :
    ∃ directory, fs.locate path = .ok (directory, .directory) ∧ found = directory ++ [name] := by
  obtain ⟨front, middle, hsegments, hjoin⟩ := Path.segments_join hpath hname.slash
  obtain ⟨hnul, hsize, -, hfollow⟩ := (locate_eq_ok_iff hjoin).1 h
  obtain ⟨behind, happend⟩ := Path.exists_join_eq_append path name
  have hnul' : '\x00' ∉ path.toList := by
    rw [happend, String.toList_append] at hnul
    exact fun hmem => hnul (List.mem_append_left _ hmem)
  have hsize' : path.utf8ByteSize < 4096 := by
    rw [happend, String.utf8ByteSize_append] at hsize
    omega
  rw [← List.append_assoc, follow_append] at hfollow
  obtain ⟨⟨directory, e⟩, hdirectory, hlast⟩ := exists_of_bind_eq_ok hfollow
  obtain ⟨hentry, hlast⟩ := follow_cons_name hname hlast
  obtain rfl : e = .directory := Option.some.inj ((listed_of_follow hdirectory).symm.trans hentry)
  refine ⟨directory, ?_, found_of_follow_nil hlast⟩
  rcases hsegments with hsegments | hsegments
  · exact (locate_eq_ok_iff hsegments).2 ⟨hnul', hsize', hpath, hdirectory⟩
  · refine (locate_eq_ok_iff hsegments).2 ⟨hnul', hsize', hpath, ?_⟩
    rw [← List.append_assoc]
    exact follow_slash hdirectory

/-- What a path with names joined to it leads to lies under these names in what the path leads to. -/
theorem found_of_locate_foldl_join (hpath : path ≠ "") (hnames : ∀ name ∈ names, Path.IsName name)
    (hlocate : fs.locate path = .ok (directory, .directory))
    (h : fs.locate (names.foldl Path.join path) = .ok (found, entry)) : found = directory ++ names := by
  -- The last name is joined to what the others lead to, so the induction takes names off the end.
  induction names using List.reverseRecOn generalizing found entry with
  | nil =>
    rw [List.foldl_nil, hlocate] at h
    cases h
    exact (List.append_nil _).symm
  | append_singleton names name ih =>
    rw [List.foldl_append] at h
    obtain ⟨above, habove, rfl⟩ :=
      exists_of_locate_join (Path.foldl_join_ne_empty hpath names) (hnames name (by simp)) h
    rw [ih (fun n hn => hnames n (List.mem_append_left _ hn)) habove, List.append_assoc]

end PhpInspect.FileSystem
