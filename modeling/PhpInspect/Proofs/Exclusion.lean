import Mathlib.Data.List.TakeWhile
import PhpInspect.Config.Exclusion
import PhpInspect.Proofs.Path

/-! # Files below a directory that is left out

A name with slashes behind it leaves out what lies below any directory of that name. It is looked for as a piece of
the path between slashes, or before the first one. That finds the segments of the path but the last, so a name that
is only a part of a segment and a file of that name do not count.
-/

namespace PhpInspect

/-! ### Segments but the last -/

namespace Text

variable {separator : Char} {cs segment first : List Char} {rest : List (List Char)}

theorem not_mem_of_mem_segments (h : segment ∈ segments separator cs) : separator ∉ segment := by
  induction cs generalizing segment with
  | nil =>
    obtain rfl := List.mem_singleton.1 h
    exact List.not_mem_nil
  | cons c cs ih =>
    obtain ⟨first, rest, hsegments⟩ := List.exists_cons_of_ne_nil (segments_ne_nil separator cs)
    rw [segments, hsegments] at h
    rw [hsegments] at ih
    split_ifs at h with hc
    · rcases List.mem_cons.1 h with rfl | h
      · exact List.not_mem_nil
      · exact ih h
    · rcases List.mem_cons.1 h with rfl | h
      · exact List.not_mem_cons_of_ne_of_not_mem (Ne.symm hc) (ih List.mem_cons_self)
      · exact ih (List.mem_cons_of_mem _ h)

/-- The segment at the front, if a separator follows it, is what the text begins with up to a separator. -/
theorem append_separator_prefix_iff (hsegment : separator ∉ segment) (h : segments separator cs = first :: rest) :
    segment ++ [separator] <+: cs ↔ segment = first ∧ rest ≠ [] := by
  induction cs generalizing segment first rest with
  | nil =>
    cases h
    simp
  | cons c cs ih =>
    obtain ⟨first', rest', hsegments⟩ := List.exists_cons_of_ne_nil (segments_ne_nil separator cs)
    rw [segments, hsegments] at h
    split_ifs at h with hc
    · cases h
      cases segment with
      | nil => simp [hc]
      | cons d segment =>
        have hd : d ≠ c := by
          rintro rfl
          exact hsegment (hc ▸ List.mem_cons_self)
        simp [hd]
    · cases h
      cases segment with
      | nil => simp [Ne.symm hc]
      | cons d segment =>
        have htail := ih (fun hmem => hsegment (List.mem_cons_of_mem d hmem)) hsegments
        simp [htail, and_assoc]

/-- The segments between two separators are the pieces of the text between separators. -/
theorem separator_infix_iff (hsegment : separator ∉ segment) (h : segments separator cs = first :: rest) :
    separator :: segment ++ [separator] <:+: cs ↔ segment ∈ rest.dropLast := by
  induction cs generalizing first rest with
  | nil =>
    cases h
    simp
  | cons c cs ih =>
    obtain ⟨first', rest', hsegments⟩ := List.exists_cons_of_ne_nil (segments_ne_nil separator cs)
    rw [segments, hsegments] at h
    rw [List.infix_cons_iff, ih hsegments]
    split_ifs at h with hc
    · cases h
      have hfront := append_separator_prefix_iff hsegment hsegments
      cases rest' <;> simp_all
    · cases h
      simp [Ne.symm hc]

/-- A segment that is not the last one is found at the front or between two separators. -/
theorem mem_dropLast_segments (hsegment : separator ∉ segment) : segment ∈ (segments separator cs).dropLast ↔
    separator :: segment ++ [separator] <:+: cs ∨ segment ++ [separator] <+: cs := by
  obtain ⟨first, rest, hsegments⟩ := List.exists_cons_of_ne_nil (segments_ne_nil separator cs)
  rw [append_separator_prefix_iff hsegment hsegments, separator_infix_iff hsegment hsegments, hsegments]
  cases rest with
  | nil => simp
  | cons next rest => simp [or_comm]

end Text

/-! ### Patterns without special characters -/

namespace Glob

variable {cs text : List Char}

/-- No character stands for anything but itself. -/
def IsLiteral (cs : List Char) : Prop := ∀ c ∈ cs, c ≠ '*' ∧ c ≠ '?' ∧ c ≠ '['

instance (cs : List Char) : Decidable (IsLiteral cs) := List.decidableBAll _ cs

theorem IsLiteral.append {ds : List Char} (hcs : IsLiteral cs) (hds : IsLiteral ds) : IsLiteral (cs ++ ds) := by
  intro c hc
  exact (List.mem_append.1 hc).elim (hcs c) (hds c)

theorem piecesFrom?_of_isLiteral (h : IsLiteral cs) (previous : Option Char) :
    piecesFrom? previous 0 cs = some (cs.map .literal) := by
  induction cs generalizing previous with
  | nil => rfl
  | cons c cs ih =>
    obtain ⟨⟨hstar, hmark, hbracket⟩, hcs⟩ := List.forall_mem_cons.1 h
    have hpiece : piece? previous (c :: cs) = some (.literal c, 1) := by
      unfold piece?
      split <;> simp_all
    simp [piecesFrom?, hpiece, ih hcs]

theorem matchesFrom_literals : matchesFrom (cs.map .literal) text = true ↔ text = cs := by
  induction cs generalizing text with
  | nil => simp [matchesFrom]
  | cons c cs ih =>
    cases text with
    | nil => simp [matchesFrom]
    | cons d text => simp [matchesFrom, pieceMatches, ih]

end Glob

namespace Path

variable {path name : String}

theorem mem_segments_of_component (h : .name name ∈ components path) :
    name.toList ∈ Text.segments '/' path.toList := by
  have hcomponent : ∀ segment, component? segment = some (.name name) → segment = name.toList := by
    intro segment hsegment
    unfold component? at hsegment
    split at hsegment <;> cases hsegment
    exact String.toList_ofList.symm
  have hrest : ∀ rest : List (List Char), .name name ∈ rest.filterMap component? → name.toList ∈ rest := by
    intro rest hmem
    obtain ⟨segment, hsegment, hname⟩ := List.mem_filterMap.1 hmem
    exact hcomponent segment hname ▸ hsegment
  unfold components at h
  split at h
  · cases h
  · cases h
  · next heq => exact heq ▸ List.mem_cons_of_mem _ (hrest _ (by simpa using h))
  · next heq => exact heq ▸ List.mem_cons_of_mem _ (hrest _ (by simpa using h))
  · exact hrest _ h

/-- The name at the end of a path is one segment. -/
theorem slash_not_mem_of_fileName? (h : fileName? path = some name) : '/' ∉ name.toList := by
  unfold fileName? at h
  split at h
  · next heq =>
    cases h
    exact Text.not_mem_of_mem_segments (mem_segments_of_component (List.mem_of_getLast? heq))
  · cases h

end Path

namespace Exclusion

variable {name path : String}

/-- A pattern without special characters matches nothing but its own text. -/
def Matcher.KeepsLiterals (matcher : Matcher) : Prop :=
  ∀ pattern test, Glob.IsLiteral pattern.toList → matcher pattern = some test →
    ∀ text, test text = true → text = pattern

theorem keepsLiterals_globs : Matcher.KeepsLiterals globs := by
  intro pattern test hliteral htest text hmatch
  have hglob : globs pattern = some (Glob.isMatch ⟨pattern.toList.map .literal⟩) := by
    rw [globs, Glob.ofText?, Glob.piecesFrom?_of_isLiteral hliteral]
    rfl
  cases hglob.symm.trans htest
  rwa [Glob.isMatch_eq, Glob.matchesFrom_literals, String.toList_inj] at hmatch

theorem eq_or_fileName?_of_globMatches {matcher : Matcher} (h : matcher.KeepsLiterals) {pattern : String}
    (hliteral : Glob.IsLiteral pattern.toList) (hmatch : globMatches matcher pattern path = true) :
    path = pattern ∨ Path.fileName? path = some pattern := by
  rw [globMatches] at hmatch
  split at hmatch
  · cases hmatch
  · next test htest =>
    rcases Bool.or_eq_true_iff.1 hmatch with hpath | hname
    · exact .inl (h pattern test hliteral htest path hpath)
    · obtain ⟨name, hsome, hname⟩ := (Option.any_eq_true _ _).1 hname
      rw [h pattern test hliteral htest name hname] at hsome
      exact .inr hsome

/-- A name with slashes behind it, one at least. -/
def belowPattern (name : String) (more : Nat) : String := name ++ String.ofList (List.replicate (more + 1) '/')

theorem toList_belowPattern (name : String) (more : Nat) :
    (belowPattern name more).toList = name.toList ++ '/' :: List.replicate more '/' := by
  simp [belowPattern, List.replicate_succ]

theorem directory?_belowPattern (hslash : '/' ∉ name.toList) (more : Nat) :
    directory? (belowPattern name more) = some name.toList := by
  have hreverse : (belowPattern name more).toList.reverse =
      '/' :: (List.replicate more '/' ++ name.toList.reverse) := by
    rw [toList_belowPattern, ← List.replicate_succ, List.reverse_append, List.reverse_replicate, List.replicate_succ,
      List.cons_append]
  have hname : name.toList.reverse.dropWhile (· == '/') = name.toList.reverse := by
    apply List.dropWhile_eq_self_iff.2
    intro hlength hhead
    apply hslash
    rw [← List.mem_reverse, ← eq_of_beq hhead]
    exact List.getElem_mem _
  have hslashes : (List.replicate more '/' ++ name.toList.reverse).dropWhile (· == '/') = name.toList.reverse := by
    rw [List.dropWhile_append_of_pos, hname]
    simp
  rw [directory?, hreverse]
  simp [hslashes]

theorem directoryMatches_belowPattern (hslash : '/' ∉ name.toList) (more : Nat) :
    directoryMatches (belowPattern name more) path = true ↔
      name.toList ∈ (Text.segments '/' path.toList).dropLast := by
  rw [Text.mem_dropLast_segments hslash, directoryMatches, directory?_belowPattern hslash]
  simp [Text.occursIn_iff]

/-- A path that is the pattern itself has the name as its first segment. -/
theorem mem_dropLast_of_eq_belowPattern (hslash : '/' ∉ name.toList) (more : Nat) :
    name.toList ∈ (Text.segments '/' (belowPattern name more).toList).dropLast := by
  rw [Text.mem_dropLast_segments hslash, toList_belowPattern]
  exact .inr ⟨List.replicate more '/', by simp⟩

theorem patternMatches_belowPattern {matcher : Matcher} (h : matcher.KeepsLiterals) (hslash : '/' ∉ name.toList)
    (hliteral : Glob.IsLiteral name.toList) (more : Nat) :
    patternMatches matcher (belowPattern name more) path = true ↔
      name.toList ∈ (Text.segments '/' path.toList).dropLast := by
  have hpattern : Glob.IsLiteral (belowPattern name more).toList := by
    rw [toList_belowPattern, ← List.replicate_succ]
    apply hliteral.append
    intro c hc
    rw [List.eq_of_mem_replicate hc]
    decide
  rw [patternMatches, Bool.or_eq_true, directoryMatches_belowPattern hslash]
  constructor
  · rintro (hmatch | hmem)
    · rcases eq_or_fileName?_of_globMatches h hpattern hmatch with rfl | hname
      · exact mem_dropLast_of_eq_belowPattern hslash more
      · refine absurd ?_ (Path.slash_not_mem_of_fileName? hname)
        simp [toList_belowPattern]
    · exact hmem
  · exact .inr

end Exclusion

namespace Config

open Exclusion

variable (c : Config) (path : String)

theorem excludesBy_iff (matcher : Matcher) :
    c.excludesBy matcher path = true ↔ ∃ pattern ∈ c.exclude, patternMatches matcher pattern path = true :=
  List.any_eq_true

theorem excludesBy_of_subset (matcher : Matcher) {ps qs : List String} (h : ps ⊆ qs)
    (hps : { c with exclude := ps }.excludesBy matcher path = true) :
    { c with exclude := qs }.excludesBy matcher path = true := by
  obtain ⟨pattern, hpattern, hmatch⟩ := (excludesBy_iff _ path matcher).1 hps
  exact (excludesBy_iff _ path matcher).2 ⟨pattern, h hpattern, hmatch⟩

/-- Which files are left out. Slashes behind a name leave out what has the name as a segment before its last one,
and every further pattern, whatever it is, only adds to what is left out. This needs nothing of what understands
patterns but that a pattern without special characters matches only its own text, as is the case for globs. -/
theorem excludes_by_segment :
    (∀ matcher : Matcher, matcher.KeepsLiterals → ∀ name more, '/' ∉ name.toList → Glob.IsLiteral name.toList →
      ({ c with exclude := [belowPattern name more] }.excludesBy matcher path = true ↔
        name.toList ∈ (Text.segments '/' path.toList).dropLast)) ∧
    (∀ (matcher : Matcher) (ps qs : List String), { c with exclude := ps ++ qs }.excludesBy matcher path =
      ({ c with exclude := ps }.excludesBy matcher path || { c with exclude := qs }.excludesBy matcher path)) ∧
    (∀ (matcher : Matcher) (ps qs : List String), ps.Perm qs →
      { c with exclude := ps }.excludesBy matcher path = { c with exclude := qs }.excludesBy matcher path) ∧
    (∀ (matcher : Matcher) (ps qs : List String), ps ⊆ qs →
      { c with exclude := ps }.excludesBy matcher path = true →
      { c with exclude := qs }.excludesBy matcher path = true) ∧
    Matcher.KeepsLiterals globs ∧ ∀ d : Config, d.excludes path = d.excludesBy globs path := by
  refine ⟨fun matcher hkeeps name more hslash hliteral => ?_, fun matcher ps qs => List.any_append,
    fun matcher ps qs h => ?_, fun matcher ps qs h => excludesBy_of_subset c path matcher h, keepsLiterals_globs,
    fun d => rfl⟩
  · rw [excludesBy_iff, ← patternMatches_belowPattern hkeeps hslash hliteral more]
    simp
  · exact Bool.eq_iff_iff.2
      ⟨excludesBy_of_subset c path matcher h.subset, excludesBy_of_subset c path matcher h.symm.subset⟩

/-- A directory that is named twice on the way, and a file with the name of the directory. -/
theorem excludes_by_segment_vendor :
    '/' ∉ "vendor".toList ∧ Glob.IsLiteral "vendor".toList ∧
    { empty with exclude := ["vendor//"] }.excludes "./a/vendor//vendor/b.php" = true ∧
    { empty with exclude := ["vendor//"] }.excludes "my-vendor/vendor" = false ∧
    { empty with exclude := ["a**", "vendor//"] }.excludes "vendor/b.php" = true := by
  have hslash : '/' ∉ "vendor".toList := by decide +kernel
  have hliteral : Glob.IsLiteral "vendor".toList := by decide +kernel
  obtain ⟨hsegment, -, -, -, hkeeps, hexcludes⟩ := excludes_by_segment empty "./a/vendor//vendor/b.php"
  obtain ⟨hfile, -, -, -, -, hexcludesFile⟩ := excludes_by_segment empty "my-vendor/vendor"
  obtain ⟨hfront, -, -, hsubset, -, hexcludesFront⟩ := excludes_by_segment empty "vendor/b.php"
  refine ⟨hslash, hliteral, ?_, ?_, ?_⟩
  · rw [hexcludes]
    exact (hsegment globs hkeeps "vendor" 1 hslash hliteral).2 (by decide +kernel)
  · rw [hexcludesFile]
    exact Bool.eq_false_iff.2 (mt (hfile globs hkeeps "vendor" 1 hslash hliteral).1 (by decide +kernel))
  · rw [hexcludesFront]
    exact hsubset globs ["vendor//"] _ (by simp)
      ((hfront globs hkeeps "vendor" 1 hslash hliteral).2 (by decide +kernel))

end Config

end PhpInspect
