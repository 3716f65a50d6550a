import PhpInspect.Report.Format

/-! # Codes for the ends of lines

In a message a percent sign and the ends of lines are replaced by their codes, one after the other, so each replacement
sees the codes that are there already. No code holds a character that is replaced later: the replacements come to one
pass over the message. A percent sign that is left stands at the front of a code, so the codes can be read back from
the left.
-/

namespace PhpInspect.Report

variable {c d : Char} {code cs : List Char} {codes : List (Char × List Char)}

/-! ### One pass -/

/-- What stands for a character after one pass over a text. -/
def codeFor (codes : List (Char × List Char)) (c : Char) : List Char := (codes.lookup c).getD [c]

theorem codeFor_cons_self : codeFor ((c, code) :: codes) c = code := by
  simp [codeFor]

theorem codeFor_cons_of_ne (h : d ≠ c) : codeFor ((c, code) :: codes) d = codeFor codes d := by
  rw [codeFor, codeFor, List.lookup_cons, beq_eq_false_iff_ne.2 h]

theorem codeFor_of_not_mem (h : ∀ p ∈ codes, p.1 ≠ c) : codeFor codes c = [c] := by
  induction codes with
  | nil => rfl
  | cons p codes ih =>
    obtain ⟨hp, hcodes⟩ := List.forall_mem_cons.1 h
    rw [codeFor_cons_of_ne hp.symm, ih hcodes]

theorem flatMap_codeFor_of_not_mem (h : ∀ p ∈ codes, p.1 ∉ cs) : cs.flatMap (codeFor codes) = cs := by
  induction cs with
  | nil => rfl
  | cons c cs ih =>
    have hc : codeFor codes c = [c] := codeFor_of_not_mem fun p hp heq => h p hp (heq ▸ List.mem_cons_self)
    rw [List.flatMap_cons, hc, ih fun p hp hmem => h p hp (List.mem_cons_of_mem c hmem), List.singleton_append]

/-- Replacements one after the other come to one pass if no code holds a character that is replaced later. -/
theorem foldl_replaceChar (h : codes.Pairwise fun earlier later => later.1 ∉ earlier.2) (cs : List Char) :
    codes.foldl (fun cs p => replaceChar p.1 p.2 cs) cs = cs.flatMap (codeFor codes) := by
  induction codes generalizing cs with
  | nil => exact (flatMap_codeFor_of_not_mem (by simp)).symm
  | cons p codes ih =>
    obtain ⟨c, code⟩ := p
    obtain ⟨hcode, hcodes⟩ := List.pairwise_cons.1 h
    rw [List.foldl_cons, ih hcodes, replaceChar, List.flatMap_assoc]
    congr 1
    funext d
    by_cases hd : d = c
    · -- The later replacements pass through the code.
      subst hd
      rw [if_pos (beq_self_eq_true d), flatMap_codeFor_of_not_mem hcode, codeFor_cons_self]
    · rw [if_neg (by simpa using hd), List.flatMap_singleton, codeFor_cons_of_ne hd]

-- In the opposite order a line feed cannot be told from its code.
example : messageCodes.reverse.foldl (fun cs p => replaceChar p.1 p.2 cs) ['\n'] =
    messageCodes.reverse.foldl (fun cs p => replaceChar p.1 p.2 cs) "%0A".toList := by decide

def escapeChar (c : Char) : List Char := codeFor messageCodes c

theorem toList_escapeMessage (message : String) :
    (escapeMessage message).toList = message.toList.flatMap escapeChar := by
  rw [escapeMessage, String.toList_ofList]
  exact foldl_replaceChar (by decide) message.toList

theorem escapeChar_of_ne (hpercent : c ≠ '%') (hreturn : c ≠ '\r') (hfeed : c ≠ '\n') : escapeChar c = [c] := by
  apply codeFor_of_not_mem
  simp [messageCodes, hpercent.symm, hreturn.symm, hfeed.symm]

theorem escapeChar_cases (c : Char) : c = '%' ∧ escapeChar c = ['%', '2', '5'] ∨
    c = '\r' ∧ escapeChar c = ['%', '0', 'D'] ∨ c = '\n' ∧ escapeChar c = ['%', '0', 'A'] ∨
    (c ≠ '%' ∧ c ≠ '\r' ∧ c ≠ '\n') ∧ escapeChar c = [c] := by
  by_cases hpercent : c = '%'
  · subst hpercent
    exact .inl ⟨rfl, rfl⟩
  by_cases hreturn : c = '\r'
  · subst hreturn
    exact .inr (.inl ⟨rfl, rfl⟩)
  by_cases hfeed : c = '\n'
  · subst hfeed
    exact .inr (.inr (.inl ⟨rfl, rfl⟩))
  · exact .inr (.inr (.inr ⟨⟨hpercent, hreturn, hfeed⟩, escapeChar_of_ne hpercent hreturn hfeed⟩))

/-! ### Texts of codes -/

/-- No line ends in the text, and every percent sign in it begins a code. -/
structure IsEscaped (text : List Char) : Prop where
  carriageReturn : '\r' ∉ text
  lineFeed : '\n' ∉ text
  percent : ∀ rest, '%' :: rest <:+ text → ∃ code ∈ ["%25", "%0D", "%0A"], code.toList <+: '%' :: rest

theorem isEscaped_nil : IsEscaped [] := ⟨by simp, by simp, by simp⟩

theorem isEscaped_cons : IsEscaped (c :: cs) ↔ (c ≠ '\r' ∧ c ≠ '\n' ∧
    (c = '%' → ∃ code ∈ ["%25", "%0D", "%0A"], code.toList <+: '%' :: cs)) ∧ IsEscaped cs := by
  constructor
  · rintro ⟨hreturn, hfeed, hpercent⟩
    rw [List.mem_cons, not_or] at hreturn hfeed
    refine ⟨⟨Ne.symm hreturn.1, Ne.symm hfeed.1, ?_⟩, hreturn.2, hfeed.2, fun rest hrest => ?_⟩
    · rintro rfl
      exact hpercent cs (List.suffix_refl _)
    · exact hpercent rest (List.suffix_cons_iff.2 (.inr hrest))
  · rintro ⟨⟨hreturn, hfeed, hpercent⟩, hcs⟩
    refine ⟨?_, ?_, fun rest hrest => ?_⟩
    · exact List.not_mem_cons_of_ne_of_not_mem hreturn.symm hcs.carriageReturn
    · exact List.not_mem_cons_of_ne_of_not_mem hfeed.symm hcs.lineFeed
    · rcases List.suffix_cons_iff.1 hrest with heq | hrest
      · obtain ⟨rfl, rfl⟩ := List.cons.inj heq
        exact hpercent rfl
      · exact hcs.percent rest hrest

theorem isEscaped_escapeChar_append (c : Char) : IsEscaped (escapeChar c ++ cs) ↔ IsEscaped cs := by
  obtain ⟨-, h⟩ | ⟨-, h⟩ | ⟨-, h⟩ | ⟨hc, h⟩ := escapeChar_cases c
  · simp [h, isEscaped_cons]
  · simp [h, isEscaped_cons]
  · simp [h, isEscaped_cons]
  · simp [h, isEscaped_cons, hc]

theorem isEscaped_escapeMessage (message : String) : IsEscaped (escapeMessage message).toList := by
  rw [toList_escapeMessage]
  induction message.toList with
  | nil => exact isEscaped_nil
  | cons c cs ih => rwa [List.flatMap_cons, isEscaped_escapeChar_append]

theorem lineFeed_not_mem_escapeMessage (message : String) : '\n' ∉ (escapeMessage message).toList :=
  (isEscaped_escapeMessage message).lineFeed

/-! ### Reading back -/

/-- Reads codes back, from the left. -/
def unescape : List Char → List Char
  | '%' :: '2' :: '5' :: cs => '%' :: unescape cs
  | '%' :: '0' :: 'D' :: cs => '\r' :: unescape cs
  | '%' :: '0' :: 'A' :: cs => '\n' :: unescape cs
  | c :: cs => c :: unescape cs
  | [] => []

theorem unescape_cons_of_ne (h : c ≠ '%') (cs : List Char) : unescape (c :: cs) = c :: unescape cs := by
  rw [unescape]
  · rintro _ rfl
    exact (h rfl).elim
  · rintro _ rfl
    exact (h rfl).elim
  · rintro _ rfl
    exact (h rfl).elim

theorem unescape_escapeChar_append (c : Char) (cs : List Char) : unescape (escapeChar c ++ cs) = c :: unescape cs := by
  obtain ⟨rfl, h⟩ | ⟨rfl, h⟩ | ⟨rfl, h⟩ | ⟨⟨hpercent, -, -⟩, h⟩ := escapeChar_cases c
  · simp [h, unescape]
  · simp [h, unescape]
  · simp [h, unescape]
  · rw [h, List.singleton_append, unescape_cons_of_ne hpercent]

/-- A message can be read back from its escaped form. -/
theorem unescape_escapeMessage (message : String) : unescape (escapeMessage message).toList = message.toList := by
  rw [toList_escapeMessage]
  induction message.toList with
  | nil => rfl
  | cons c cs ih => rw [List.flatMap_cons, unescape_escapeChar_append, ih]

/-- A text of codes is the escaped form of what is read from it. -/
theorem flatMap_escapeChar_unescape {text : List Char} (h : IsEscaped text) :
    (unescape text).flatMap escapeChar = text := by
  fun_induction unescape text with
  | case1 cs ih =>
    have hcs : IsEscaped cs := (isEscaped_escapeChar_append '%').1 h
    rw [List.flatMap_cons, ih hcs]
    rfl
  | case2 cs ih =>
    have hcs : IsEscaped cs := (isEscaped_escapeChar_append '\r').1 h
    rw [List.flatMap_cons, ih hcs]
    rfl
  | case3 cs ih =>
    have hcs : IsEscaped cs := (isEscaped_escapeChar_append '\n').1 h
    rw [List.flatMap_cons, ih hcs]
    rfl
  | case4 c cs h25 h0D h0A ih =>
    obtain ⟨⟨hreturn, hfeed, hcode⟩, hcs⟩ := isEscaped_cons.1 h
    have hpercent : c ≠ '%' := by
      -- A percent sign begins a code, and then it would have been read with it.
      rintro rfl
      obtain ⟨code, hmem, rest, hrest⟩ := hcode rfl
      simp only [List.mem_cons, List.not_mem_nil, or_false] at hmem
      obtain rfl | rfl | rfl := hmem
      · exact h25 rest rfl (List.cons.inj hrest).2.symm
      · exact h0D rest rfl (List.cons.inj hrest).2.symm
      · exact h0A rest rfl (List.cons.inj hrest).2.symm
    rw [List.flatMap_cons, escapeChar_of_ne hpercent hreturn hfeed, ih hcs, List.singleton_append]
  | case5 => rfl

/-- Escaping is a faithful encoding. The escaped form of a message has no line ends, every percent sign in it begins a
code, and the codes read from the left give the message back. There is no other such text. -/
theorem messages_escaped_faithfully :
    (∀ message, IsEscaped (escapeMessage message).toList ∧
      unescape (escapeMessage message).toList = message.toList ∧
      ∀ text : String, IsEscaped text.toList → unescape text.toList = message.toList → text = escapeMessage message) ∧
    Function.Injective escapeMessage := by
  refine ⟨fun message => ⟨isEscaped_escapeMessage message, unescape_escapeMessage message, ?_⟩, ?_⟩
  · intro text htext hread
    apply String.toList_injective
    rw [toList_escapeMessage, ← hread, flatMap_escapeChar_unescape htext]
  · intro message other heq
    apply String.toList_injective
    rw [← unescape_escapeMessage message, heq, unescape_escapeMessage other]

/-- A message that holds codes already. -/
theorem codedMessage_escaped_faithfully :
    IsEscaped "%250A%0D%0A%252525".toList ∧ unescape "%250A%0D%0A%252525".toList = "%0A\r\n%2525".toList ∧
    escapeMessage "%0A\r\n%2525" = "%250A%0D%0A%252525" ∧
    ∀ other, escapeMessage other = "%250A%0D%0A%252525" → other = "%0A\r\n%2525" := by
  have hescaped : IsEscaped "%250A%0D%0A%252525".toList := by
    simp [isEscaped_cons, isEscaped_nil]
  have hread : unescape "%250A%0D%0A%252525".toList = "%0A\r\n%2525".toList := by decide +kernel
  have hescape := (messages_escaped_faithfully.1 "%0A\r\n%2525").2.2 _ hescaped hread
  exact ⟨hescaped, hread, hescape.symm, fun other h => messages_escaped_faithfully.2 (h.trans hescape)⟩

end PhpInspect.Report
