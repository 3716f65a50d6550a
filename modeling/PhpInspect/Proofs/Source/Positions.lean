import Mathlib.Data.Prod.Lex
import PhpInspect.Proofs.Source.Lines
import PhpInspect.Proofs.Text.ByteOrder

/-! # Lines and columns of offsets

The table of a text is in increasing order, so bisection finds the number of lines that begin at or before an
offset: one more than the line feeds before the offset. The last of these lines holds the offset, and the column
is the distance from where it begins. Offsets past the end of the text lie on its last line. One column is too great
for a machine word: that of the greatest word, where no line feed stands before it.
-/

namespace PhpInspect

/-- The line that begins at `start` holds `offset`. -/
structure HeldFrom (bytes : List UInt8) (offset start : Nat) : Prop where
  le : start ≤ offset
  begins : start = 0 ∨ bytes[start - 1]? = some 10
  unbroken : ∀ i, start ≤ i → i < offset → bytes[i]? ≠ some 10

/-- The column of an offset is a machine word: the offset is not the greatest word, or not on the first line. -/
def ColumnFits (bytes : List UInt8) (offset : Nat) : Prop := offset + 1 < UInt64.size ∨ 10 ∈ bytes.take offset

namespace HeldFrom

variable {bytes : List UInt8} {offset start : Nat}

theorem mem_take_iff (h : HeldFrom bytes offset start) : 10 ∈ bytes.take offset ↔ 0 < start := by
  rw [List.mem_iff_getElem?]
  constructor
  · rintro ⟨i, hi⟩
    rw [List.getElem?_take, Option.ite_none_right_eq_some] at hi
    obtain ⟨hlt, hbyte⟩ := hi
    by_contra hstart
    exact h.unbroken i (by omega) hlt hbyte
  · intro hstart
    have hbyte := h.begins.resolve_left (Nat.ne_of_gt hstart)
    have hle := h.le
    refine ⟨start - 1, ?_⟩
    rw [List.getElem?_take_of_lt (by omega), hbyte]

theorem columnFits_iff (h : HeldFrom bytes offset start) (hword : offset < UInt64.size) :
    ColumnFits bytes offset ↔ offset - start + 1 < UInt64.size := by
  have hle := h.le
  rw [ColumnFits, h.mem_take_iff]
  omega

end HeldFrom

namespace LineTable

variable {t : LineTable} {k lo hi offset start : Nat} {bs : List UInt8}

/-! ### The table of a text -/

theorem mem_startsAfter : start ∈ startsAfter k bs ↔ ∃ i, bs[i]? = some 10 ∧ start = k + i + 1 := by
  induction bs generalizing k with
  | nil => simp [startsAfter]
  | cons b bs ih =>
    -- The first byte gives the entry `k + 1`, the others count from `k + 1` on.
    have hrest : (∃ i, (b :: bs)[i]? = some 10 ∧ start = k + i + 1) ↔
        (b = 10 ∧ start = k + 1) ∨ ∃ i, bs[i]? = some 10 ∧ start = k + 1 + i + 1 := by
      constructor
      · rintro ⟨i, hbyte, hstart⟩
        cases i with
        | zero => exact .inl ⟨by simpa using hbyte, hstart⟩
        | succ i => exact .inr ⟨i, by simpa using hbyte, by omega⟩
      · rintro (⟨rfl, hstart⟩ | ⟨i, hbyte, hstart⟩)
        · exact ⟨0, rfl, hstart⟩
        · exact ⟨i + 1, by simpa using hbyte, by omega⟩
    rw [startsAfter, hrest]
    split_ifs with hb
    · simp [ih, hb]
    · simp [ih, hb]

theorem pairwise_startsAfter (k : Nat) (bs : List UInt8) : (startsAfter k bs).Pairwise (· < ·) := by
  induction bs generalizing k with
  | nil => exact .nil
  | cons b bs ih =>
    rw [startsAfter]
    split_ifs
    · refine List.pairwise_cons.2 ⟨fun start hstart => ?_, ih (k + 1)⟩
      obtain ⟨i, -, rfl⟩ := mem_startsAfter.1 hstart
      omega
    · exact ih (k + 1)

/-- The entries that are not past an offset stand for the line feeds before it. -/
theorem countP_startsAfter (k n : Nat) (bs : List UInt8) :
    (startsAfter k bs).countP (· ≤ k + n) = (bs.take n).count 10 := by
  induction bs generalizing k n with
  | nil => simp [startsAfter]
  | cons b bs ih =>
    cases n with
    | zero =>
      rw [List.take_zero, List.count_nil, List.countP_eq_zero]
      intro start hstart
      obtain ⟨i, -, rfl⟩ := mem_startsAfter.1 hstart
      rw [decide_eq_true_eq]
      omega
    | succ n =>
      have hshift : k + (n + 1) = k + 1 + n := by omega
      rw [startsAfter, List.take_succ_cons, hshift]
      split_ifs with hb
      · simp [ih, hb]
      · simp [ih, hb]

@[simp] theorem toList_starts_ofBytes (bytes : ByteArray) :
    (ofBytes bytes).starts.toList = 0 :: startsAfter 0 bytes.data.toList := rfl

/-- The lines begin one after the other. -/
def Increasing (t : LineTable) : Prop := t.starts.toList.Pairwise (· < ·)

theorem increasing_ofBytes (bytes : ByteArray) : (ofBytes bytes).Increasing := by
  refine List.pairwise_cons.2 ⟨fun start hstart => ?_, pairwise_startsAfter 0 _⟩
  obtain ⟨i, -, rfl⟩ := mem_startsAfter.1 hstart
  omega

/-! ### Bisection -/

/-- In an increasing list the entries that are not past `n` come first. -/
theorem le_iff_lt_countP {starts : List Nat} (h : starts.Pairwise (· < ·)) {i n : Nat}
    (hi : starts[i]? = some start) : start ≤ n ↔ i < starts.countP (· ≤ n) := by
  induction starts generalizing i with
  | nil => simp at hi
  | cons first rest ih =>
    obtain ⟨hfirst, hrest⟩ := List.pairwise_cons.1 h
    by_cases hn : first ≤ n
    · rw [List.countP_cons_of_pos (by simpa using hn)]
      cases i with
      | zero =>
        obtain rfl : first = start := by simpa using hi
        simp [hn]
      | succ i => rw [ih hrest (by simpa using hi), Nat.add_lt_add_iff_right]
    · -- All entries are past `n`.
      have hpast : ∀ x ∈ first :: rest, ¬ x ≤ n := by
        intro x hx
        rcases List.mem_cons.1 hx with rfl | hx
        · exact hn
        · exact fun hle => hn (Nat.le_trans (Nat.le_of_lt (hfirst x hx)) hle)
      have hzero : (first :: rest).countP (· ≤ n) = 0 := by
        simpa only [List.countP_eq_zero, decide_eq_true_eq] using hpast
      simp [hzero, hpast start (List.mem_of_getElem? hi)]

theorem getElem?_starts {i : Nat} (h : i < t.lineCount) : t.starts[i]? = some (t.startOf i) := by
  rw [startOf, Array.getD_eq_getD_getElem?, Array.getElem?_eq_getElem h]
  rfl

/-- Bisection finds the place where the lines that begin too late begin. -/
theorem bisect_eq {place : Nat} (h : ∀ i < t.lineCount, t.startOf i ≤ offset ↔ i < place)
    (hlo : lo ≤ place) (hhi : place ≤ hi) (hcount : hi ≤ t.lineCount) : t.bisect offset lo hi = place := by
  fun_induction bisect t offset lo hi with
  | case1 lo hi hlt mid hmid ih =>
    have hplace := (h mid (by omega)).1 hmid
    exact ih hplace hhi hcount
  | case2 lo hi hlt mid hmid ih =>
    have hplace := mt (h mid (by omega)).2 hmid
    exact ih hlo (by omega) (by omega)
  | case3 lo hi hge => omega

theorem Increasing.lineOf_eq (h : t.Increasing) (offset : Nat) :
    t.lineOf offset = t.starts.toList.countP (· ≤ offset) := by
  apply bisect_eq
  · intro i hi
    apply le_iff_lt_countP h
    rw [Array.getElem?_toList, getElem?_starts hi]
  · exact Nat.zero_le _
  · exact List.countP_le_length
  · exact Nat.le_refl _

/-- The line of an offset is one more than the number of line feeds before it. -/
theorem lineOf_ofBytes (bytes : ByteArray) (offset : Nat) :
    (ofBytes bytes).lineOf offset = 1 + (bytes.data.toList.take offset).count 10 := by
  have hcount := countP_startsAfter 0 offset bytes.data.toList
  rw [Nat.zero_add] at hcount
  rw [(increasing_ofBytes bytes).lineOf_eq, toList_starts_ofBytes, List.countP_cons_of_pos (by simp), hcount,
    Nat.add_comm]

/-! ### The line that holds an offset -/

/-- The entry for the line of an offset says where the line that holds the offset begins. -/
theorem exists_heldFrom (bytes : ByteArray) (offset : Nat) : ∃ start,
    (ofBytes bytes).starts[(ofBytes bytes).lineOf offset - 1]? = some start ∧
      HeldFrom bytes.data.toList offset start := by
  have hincreasing := increasing_ofBytes bytes
  have hfirst := one_le_lineOf_ofBytes bytes offset
  have hlast := lineOf_le_lineCount (ofBytes bytes) offset
  obtain ⟨line, hline⟩ := Nat.exists_eq_add_of_le' hfirst
  have hentry := getElem?_starts (show line < (ofBytes bytes).lineCount by omega)
  have hlist := hentry
  rw [← Array.getElem?_toList] at hlist
  rw [hline, Nat.add_sub_cancel]
  refine ⟨_, hentry, ?_, ?_, ?_⟩
  · rw [le_iff_lt_countP hincreasing hlist, ← hincreasing.lineOf_eq]
    omega
  · rcases List.mem_cons.1 (List.mem_of_getElem? hlist) with hzero | hmem
    · exact .inl hzero
    · obtain ⟨i, hbyte, hstart⟩ := mem_startsAfter.1 hmem
      rw [hstart]
      exact .inr (by simpa using hbyte)
  · intro i hle hlt hbyte
    -- A line that began behind this line feed would be one more line at or before the offset.
    have hmem : i + 1 ∈ (ofBytes bytes).starts.toList :=
      List.mem_cons_of_mem _ (mem_startsAfter.2 ⟨i, hbyte, by omega⟩)
    obtain ⟨next, hnext⟩ := List.getElem?_of_mem hmem
    have hbefore := (le_iff_lt_countP hincreasing hnext).1 hlt
    rw [← hincreasing.lineOf_eq, hline] at hbefore
    have hown := (le_iff_lt_countP hincreasing hlist).1 (Nat.le_refl _)
    have hstart := (le_iff_lt_countP hincreasing hnext).2 (Nat.lt_of_le_of_lt (Nat.le_of_lt_succ hbefore) hown)
    omega

/-- The column is counted from where the line begins that holds the offset, as far as words go. -/
theorem columnOf_eq {bytes : ByteArray}
    (hstart : (ofBytes bytes).starts[(ofBytes bytes).lineOf offset - 1]? = some start)
    (hheld : HeldFrom bytes.data.toList offset start) :
    (ofBytes bytes).columnOf offset =
      if offset - start + 1 < UInt64.size then some (offset - start + 1) else none := by
  have hline := one_le_lineOf_ofBytes bytes offset
  have hle := hheld.le
  simp [columnOf, hstart, hle, Nat.lt_of_succ_le hline]

/-- The line of an offset begins at an entry of the table, and a column that fits is counted from there. -/
theorem columnOf_of_columnFits {bytes : ByteArray} (hword : offset < UInt64.size)
    (h : ColumnFits bytes.data.toList offset) : ∃ start,
    (ofBytes bytes).starts[(ofBytes bytes).lineOf offset - 1]? = some start ∧
      HeldFrom bytes.data.toList offset start ∧ (ofBytes bytes).columnOf offset = some (offset - start + 1) := by
  obtain ⟨start, hstart, hheld⟩ := exists_heldFrom bytes offset
  refine ⟨start, hstart, hheld, ?_⟩
  rw [columnOf_eq hstart hheld, if_pos ((hheld.columnFits_iff hword).1 h)]

/-- There is no column where it does not fit, which is so for the greatest word only. -/
theorem columnOf_of_not_columnFits {bytes : ByteArray} (hword : offset < UInt64.size)
    (h : ¬ ColumnFits bytes.data.toList offset) :
    offset + 1 = UInt64.size ∧ (ofBytes bytes).columnOf offset = none := by
  obtain ⟨start, hstart, hheld⟩ := exists_heldFrom bytes offset
  have hcolumn := mt (hheld.columnFits_iff hword).2 h
  refine ⟨by omega, ?_⟩
  rw [columnOf_eq hstart hheld, if_neg hcolumn]

/-- Lines and columns of later offsets are later, as long as the columns fit. -/
theorem position_lt {bytes : ByteArray} {m n : Nat} (hmn : m < n) (hword : n < UInt64.size)
    (hfits : ColumnFits bytes.data.toList n) : ∃ column column',
    (ofBytes bytes).columnOf m = some column ∧ (ofBytes bytes).columnOf n = some column' ∧
      toLex ((ofBytes bytes).lineOf m, column) < toLex ((ofBytes bytes).lineOf n, column') := by
  have hm : ColumnFits bytes.data.toList m := .inl (by omega)
  obtain ⟨start, hstart, hheld, hcolumn⟩ := columnOf_of_columnFits (by omega) hm
  obtain ⟨start', hstart', -, hcolumn'⟩ := columnOf_of_columnFits hword hfits
  refine ⟨_, _, hcolumn, hcolumn', ?_⟩
  rw [Prod.Lex.toLex_lt_toLex]
  rcases Nat.lt_or_eq_of_le (lineOf_mono (Nat.le_of_lt hmn)) with hline | hline
  · exact .inl hline
  · refine .inr ⟨hline, ?_⟩
    -- Both are counted from where their one line begins.
    obtain rfl : start = start' := Option.some.inj (hstart.symm.trans (hline ▸ hstart'))
    have hle := hheld.le
    show m - start + 1 < n - start + 1
    omega

/-- No two offsets have the same line and column, for the greatest word is the only one that may have no column. -/
theorem position_ne {bytes : ByteArray} {m n : Nat} (hmn : m < n) (hword : n < UInt64.size) :
    ((ofBytes bytes).lineOf m, (ofBytes bytes).columnOf m) ≠
      ((ofBytes bytes).lineOf n, (ofBytes bytes).columnOf n) := by
  intro heq
  obtain ⟨hline, hcolumns⟩ := Prod.mk.inj heq
  by_cases hfits : ColumnFits bytes.data.toList n
  · obtain ⟨column, column', hm, hn, hlt⟩ := position_lt hmn hword hfits
    obtain rfl : column = column' := Option.some.inj (hm.symm.trans (hcolumns.trans hn))
    rw [hline] at hlt
    exact lt_irrefl _ hlt
  · have hm : ColumnFits bytes.data.toList m := .inl (by omega)
    obtain ⟨start, -, -, hcolumn⟩ := columnOf_of_columnFits (by omega) hm
    rw [hcolumn, (columnOf_of_not_columnFits hword hfits).2] at hcolumns
    exact Option.some_ne_none _ hcolumns

theorem linesOf_eq {s : Span} (t : LineTable) (h : s.start < s.stop) :
    t.linesOf s = (t.lineOf s.start, t.lineOf (s.stop - 1)) := by
  rw [linesOf, if_pos h]

/-- Where the offsets and the ranges of a text stand. An offset is on the line that follows as many line feeds as
stand before it, and its column is counted from where that line begins. Only the greatest word has no column, and only
where no line feed stands before it. -/
theorem positions_of_text (text : String) :
    (∀ offset, (ofText text).lineOf offset = 1 + ((Text.bytes text).take offset).count 10 ∧
      1 ≤ (ofText text).lineOf offset ∧ (ofText text).lineOf offset ≤ (ofText text).lineCount) ∧
    (∀ offset < UInt64.size, ∃ start, (ofText text).starts[(ofText text).lineOf offset - 1]? = some start ∧
      HeldFrom (Text.bytes text) offset start ∧
      (ColumnFits (Text.bytes text) offset → ∃ column, (ofText text).columnOf offset = some column ∧
        1 ≤ column ∧ start + column - 1 = offset) ∧
      (¬ ColumnFits (Text.bytes text) offset → offset + 1 = UInt64.size ∧ (ofText text).columnOf offset = none)) ∧
    (∀ m n, m < n → n < UInt64.size → ColumnFits (Text.bytes text) n → ∃ column column',
      (ofText text).columnOf m = some column ∧ (ofText text).columnOf n = some column' ∧
        toLex ((ofText text).lineOf m, column) < toLex ((ofText text).lineOf n, column')) ∧
    (∀ m n, m < UInt64.size → n < UInt64.size → (ofText text).lineOf m = (ofText text).lineOf n →
      (ofText text).columnOf m = (ofText text).columnOf n → m = n) ∧
    (∀ s : Span, s.start < s.stop →
      (ofText text).linesOf s = ((ofText text).lineOf s.start, (ofText text).lineOf (s.stop - 1)) ∧
      ((ofText text).linesOf s).1 ≤ ((ofText text).linesOf s).2) ∧
    ∀ s outer : Span, s.Inside outer → ((ofText text).linesOf outer).1 ≤ ((ofText text).linesOf s).1 ∧
      ((ofText text).linesOf s).2 ≤ ((ofText text).linesOf outer).2 := by
  refine ⟨fun offset => ?_, fun offset hword => ?_, fun m n => position_lt, ?_, fun s hs => ?_,
    fun s outer => linesOf_of_inside⟩
  · exact ⟨lineOf_ofBytes _ offset, one_le_lineOf_ofBytes _ offset, lineOf_le_lineCount _ offset⟩
  · obtain ⟨start, hstart, hheld⟩ := exists_heldFrom text.toUTF8 offset
    refine ⟨start, hstart, hheld, fun hfits => ?_, columnOf_of_not_columnFits hword⟩
    have hle := hheld.le
    refine ⟨offset - start + 1, ?_, by omega, by omega⟩
    exact (columnOf_eq hstart hheld).trans (if_pos ((hheld.columnFits_iff hword).1 hfits))
  · intro m n hm hn hline hcolumn
    by_contra hne
    rcases Nat.lt_or_gt_of_ne hne with hlt | hlt
    · exact position_ne hlt hn (Prod.ext hline hcolumn)
    · exact position_ne hlt hm (Prod.ext hline.symm hcolumn.symm)
  · exact ⟨linesOf_eq _ hs, linesOf_le _ s⟩

/-- From the line feed that ends the first line to the one that ends the empty line behind it, and the greatest word. -/
theorem positions_of_emptyLine :
    1 < 3 ∧ (ofText "a\n\nb").linesOf ⟨1, 3⟩ = (1, 2) ∧ (ofText "a\n\nb").lineOf 100 = 3 ∧
      ColumnFits (Text.bytes "a\n\nb") (UInt64.size - 1) ∧
      ∃ column, (ofText "a\n\nb").columnOf (UInt64.size - 1) = some column ∧ 1 ≤ column := by
  obtain ⟨hline, hcolumn, -, -, hspan, -⟩ := positions_of_text "a\n\nb"
  have hlines := (hspan ⟨1, 3⟩ (by decide)).1
  rw [(hline 1).1, (hline (3 - 1)).1] at hlines
  have hfits : ColumnFits (Text.bytes "a\n\nb") (UInt64.size - 1) := .inr (by decide +kernel)
  obtain ⟨start, -, -, hcounted, -⟩ := hcolumn (UInt64.size - 1) (by decide)
  obtain ⟨column, hsome, hone, -⟩ := hcounted hfits
  exact ⟨by decide, hlines.trans (by decide), (hline 100).1.trans (by decide), hfits, column, hsome, hone⟩

/-- The greatest word as an offset into an empty text has no column. -/
theorem columnOf_greatestWord :
    (ofText "").lineOf (UInt64.size - 1) = 1 ∧ (ofText "").columnOf (UInt64.size - 1) = none := by
  have hfits : ¬ ColumnFits (Text.bytes "") (UInt64.size - 1) := by
    rintro (hlt | hbyte)
    · exact absurd hlt (by decide)
    · exact absurd (List.mem_of_mem_take hbyte) (by decide)
  exact ⟨(lineOf_ofBytes _ _).trans (by decide +kernel), (columnOf_of_not_columnFits (by decide) hfits).2⟩

end LineTable

end PhpInspect
