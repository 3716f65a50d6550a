import Mathlib.Data.List.ProdSigma
import PhpInspect.Proofs.Rule.Ownership
import PhpInspect.Proofs.Rule.Totality

/-! # Rules do not interact

The issues of a text come function by function and rule by rule, behind the issue of a text that does not parse. So
what a rule finds does not depend on which other rules run.
-/

namespace PhpInspect

/-! ### Lists made of blocks -/

section Blocks

variable {κ α : Type} {blocks : κ → List α} {k key : κ} {keys : List κ} {position : Nat}

/-- Some keys have a block of items each. In all blocks together, the item at a position stems from a key if it stands
in the block of the key. -/
def StemsFrom (blocks : κ → List α) (keys : List κ) (position : Nat) (key : κ) : Prop :=
  ∃ before behind, keys = before ++ key :: behind ∧ (before.flatMap blocks).length ≤ position ∧
    position < (before.flatMap blocks).length + (blocks key).length

theorem stemsFrom_cons : StemsFrom blocks (k :: keys) position key ↔
    position < (blocks k).length ∧ key = k ∨
      (blocks k).length ≤ position ∧ StemsFrom blocks keys (position - (blocks k).length) key := by
  constructor
  · rintro ⟨before, behind, hkeys, hle, hlt⟩
    cases before with
    | nil =>
      obtain ⟨rfl, rfl⟩ := List.cons.inj hkeys
      exact .inl ⟨by simpa using hlt, rfl⟩
    | cons b before =>
      obtain ⟨rfl, rfl⟩ := List.cons.inj hkeys
      simp only [List.flatMap_cons, List.length_append] at hle hlt
      exact .inr ⟨by omega, before, behind, rfl, by omega, by omega⟩
  · rintro (⟨hlt, rfl⟩ | ⟨hle, before, behind, rfl, hle', hlt⟩)
    · exact ⟨[], keys, rfl, by simp, by simpa using hlt⟩
    · refine ⟨k :: before, behind, rfl, ?_, ?_⟩ <;> simp only [List.flatMap_cons, List.length_append] <;> omega

/-- Every item stems from exactly one key. -/
theorem existsUnique_stemsFrom (h : position < (keys.flatMap blocks).length) :
    ∃! key, StemsFrom blocks keys position key := by
  induction keys generalizing position with
  | nil => simp at h
  | cons k keys ih =>
    simp only [stemsFrom_cons]
    rw [List.flatMap_cons, List.length_append] at h
    by_cases hlt : position < (blocks k).length
    · refine ⟨k, .inl ⟨hlt, rfl⟩, ?_⟩
      rintro key (⟨-, rfl⟩ | ⟨hle, -⟩)
      · rfl
      · omega
    · have hrest : position - (blocks k).length < (keys.flatMap blocks).length := by omega
      obtain ⟨key, hkey, hunique⟩ := ih hrest
      refine ⟨key, .inr ⟨by omega, hkey⟩, ?_⟩
      rintro other (⟨hlt', -⟩ | ⟨-, hother⟩)
      · omega
      · exact hunique other hother

theorem StemsFrom.mem_keys (h : StemsFrom blocks keys position key) : key ∈ keys := by
  obtain ⟨before, behind, rfl, -⟩ := h
  exact List.mem_append_right _ List.mem_cons_self

theorem StemsFrom.mem {x : α} (h : StemsFrom blocks keys position key)
    (hx : (keys.flatMap blocks)[position]? = some x) : x ∈ blocks key := by
  obtain ⟨before, behind, rfl, hle, hlt⟩ := h
  rw [List.flatMap_append, List.flatMap_cons, List.getElem?_append_right hle,
    List.getElem?_append_left (by omega)] at hx
  exact List.mem_of_getElem? hx

/-- If only one of some different keys has items, these are all items. -/
theorem flatMap_eq_of_forall_ne (hkeys : keys.Nodup) (hkey : key ∈ keys)
    (hnil : ∀ other ∈ keys, other ≠ key → blocks other = []) : keys.flatMap blocks = blocks key := by
  obtain ⟨before, behind, rfl⟩ := List.append_of_mem hkey
  have hnodup := List.nodup_append.1 hkeys
  have hbefore : before.flatMap blocks = [] := by
    apply List.flatMap_eq_nil_iff.2
    intro other hother
    exact hnil other (List.mem_append_left _ hother) (hnodup.2.2 other hother key List.mem_cons_self)
  have hbehind : behind.flatMap blocks = [] := by
    apply List.flatMap_eq_nil_iff.2
    intro other hother
    refine hnil other (List.mem_append_right _ (List.mem_cons_of_mem _ hother)) ?_
    rintro rfl
    exact (List.nodup_cons.1 hnodup.2.1).1 hother
  rw [List.flatMap_append, List.flatMap_cons, hbefore, hbehind, List.nil_append, List.append_nil]

end Blocks

/-! ### The rules that run -/

namespace Rule

theorem ofName?_id (r : Rule) : ofName? r.id = some r := by
  cases r <;> decide +kernel

theorem id_injective : Function.Injective id := by
  intro r q h
  have hsome := ofName?_id r
  rw [h, ofName?_id q] at hsome
  exact (Option.some.inj hsome).symm

theorem id_ne_internalError (r : Rule) : r.id ≠ Issue.internalError := by
  cases r <;> decide

theorem id_ne_parseError (r : Rule) : r.id ≠ Issue.parseError := by
  cases r <;> decide

end Rule

namespace Analyzer

variable {a : Analyzer} {t : Tree} {u : Nat} {r : Rule} {issue : Issue} (file : String)

/-- The analyzers that can be had: from a configuration, by asking for rules, and by setting options. -/
inductive Configured : Analyzer → Prop where
  | ofConfig (config : Config) : Configured (ofConfig config).value
  | setRules {a : Analyzer} (named : List String) : Configured a → Configured (a.setRules named)
  | setOption {a : Analyzer} (rule name : String) (value : Toml.Value) :
      Configured a → Configured (a.setOption rule name value).value

theorem filterMap_ofName?_filter (test : String → Bool) :
    (Rule.ids.filter test).filterMap Rule.ofName? = Rule.all.filter fun r => test r.id := by
  rw [Rule.ids, List.filter_map, List.filterMap_map]
  have hid : Rule.ofName? ∘ Rule.id = some := funext Rule.ofName?_id
  rw [hid, List.filterMap_some]
  rfl

theorem rulesNamed_sublist (config : Config) (named : List String) : (rulesNamed config named).Sublist Rule.all := by
  rw [rulesNamed, Config.effectiveRules]
  split_ifs <;> rw [filterMap_ofName?_filter] <;> exact List.filter_sublist

/-- Whatever a configuration says, rules run in their order, and none runs twice. -/
theorem Configured.enabled_sublist (h : a.Configured) : a.enabled.Sublist Rule.all := by
  induction h with
  | ofConfig config => exact rulesNamed_sublist config []
  | setRules named _ _ => exact rulesNamed_sublist _ named
  | @setOption a rule name value _ ih =>
    rw [Analyzer.setOption]
    cases Rule.ofName? rule <;> exact ih

theorem Configured.nodup_enabled (h : a.Configured) : a.enabled.Nodup := by
  refine List.Nodup.sublist h.enabled_sublist ?_
  decide

/-- Asking for one rule by its name leaves only that rule. -/
theorem enabled_setRules_id (a : Analyzer) (r : Rule) : (a.setRules [r.id]).enabled = [r] := by
  rw [setRules, rulesNamed, Config.effectiveRules, List.isEmpty_cons, if_neg Bool.false_ne_true,
    filterMap_ofName?_filter]
  change (Rule.all.filter fun q => Config.hasName [r.id] q.id) = [r]
  cases r <;> decide +kernel

/-! ### Issues rule by rule -/

theorem byRule_append (found more : List Issue) (rule : String) :
    Issue.byRule (found ++ more) rule = Issue.byRule found rule ++ Issue.byRule more rule :=
  List.filter_append found more

/-- The issues that a rule raises where it does not fail bear its name. -/
theorem rule_of_mem_checkUnit_of_ok {violations : List Violation}
    (hok : (r.apply t u (a.options r)).value = .ok violations) (h : issue ∈ (a.checkUnit file t u r).value) :
    issue.rule = r.id := by
  rw [value_checkUnit_of_ok hok] at h
  obtain ⟨found, -, rfl⟩ := Rule.exists_of_apply hok
  rw [List.map_map, List.mem_map] at h
  obtain ⟨i, -, rfl⟩ := h
  rfl

theorem rule_of_mem_checkUnit (h : issue ∈ (a.checkUnit file t u r).value) :
    issue.rule = r.id ∨ issue.rule = Issue.internalError := by
  cases hvalue : (r.apply t u (a.options r)).value with
  | ok violations => exact .inl (rule_of_mem_checkUnit_of_ok file hvalue h)
  | error e =>
    rw [checkUnit, Logged.value_bind, hvalue] at h
    obtain rfl := List.mem_singleton.1 h
    exact .inr rfl

theorem value_checkTree (a : Analyzer) (t : Tree) : (a.checkTree file t).value =
    (t.units.product a.enabled).flatMap fun run => (a.checkUnit file t run.1 run.2).value := by
  simp only [checkTree, Logged.value_collect, List.product, List.flatMap_assoc, List.flatMap_map]

/-- On a function or method, the other rules raise no issue under the name of a rule. -/
theorem byRule_checkRules (h : a.enabled.Nodup) (hr : r ∈ a.enabled) :
    Issue.byRule (a.enabled.flatMap fun q => (a.checkUnit file t u q).value) r.id =
      Issue.byRule (a.checkUnit file t u r).value r.id := by
  simp only [Issue.byRule, List.filter_flatMap]
  refine flatMap_eq_of_forall_ne h hr fun q _ hne => ?_
  rw [List.filter_eq_nil_iff]
  intro issue hissue
  rw [beq_iff_eq]
  rcases rule_of_mem_checkUnit file hissue with hrule | hrule
  · rw [hrule]
    exact fun heq => hne (Rule.id_injective heq)
  · rw [hrule]
    exact (r.id_ne_internalError).symm

/-- On any tree, even where rules fail, the issues of a rule are those that it raises alone. -/
theorem byRule_checkTree (h : a.enabled.Nodup) (hr : r ∈ a.enabled) (t : Tree) :
    Issue.byRule (a.checkTree file t).value r.id =
      Issue.byRule ((a.setRules [r.id]).checkTree file t).value r.id := by
  simp only [checkTree, Logged.value_collect, enabled_setRules_id, List.flatMap_singleton]
  have hunit := fun u => byRule_checkRules (t := t) (u := u) file h hr
  simp only [Issue.byRule] at hunit ⊢
  rw [List.filter_flatMap, List.filter_flatMap]
  exact List.flatMap_congr fun u _ => hunit u

/-! ### Programs -/

/-- The analysis tree of what could be read of a file. -/
def programTree (source : Source) (program : Php.Program) : Tree := Php.treeOf source program.statements

/-- The issue of a file that does not parse. -/
def parseIssue? (file : String) (program : Php.Program) : Option Issue :=
  program.error.map fun e => Issue.onLine .error Issue.parseError (parseMessage file e) file 1

variable (source : Source) (program : Php.Program)

theorem value_analyzeProgram (a : Analyzer) : (a.analyzeProgram file source program).value =
    (parseIssue? file program).toList ++ (a.checkTree file (programTree source program)).value := by
  rw [analyzeProgram, parseIssue?, programTree]
  cases program.error with
  | none => rw [Option.map_none, Option.toList_none, List.nil_append]
  | some e =>
    simp only [Logged.value_bind, Logged.value_pure, Option.map_some, Option.toList_some, List.singleton_append]

theorem rule_of_mem_parseIssue? (h : issue ∈ (parseIssue? file program).toList) : issue.rule = Issue.parseError := by
  rw [Option.mem_toList, parseIssue?, Option.map_eq_some_iff] at h
  obtain ⟨e, -, rfl⟩ := h
  rfl

theorem byRule_parseIssue? (r : Rule) : Issue.byRule (parseIssue? file program).toList r.id = [] := by
  rw [Issue.byRule, List.filter_eq_nil_iff]
  intro issue hissue
  rw [rule_of_mem_parseIssue? file program hissue, beq_iff_eq]
  exact (r.id_ne_parseError).symm

theorem byRule_analyzeProgram (a : Analyzer) (r : Rule) :
    Issue.byRule (a.analyzeProgram file source program).value r.id =
      Issue.byRule (a.checkTree file (programTree source program)).value r.id := by
  rw [value_analyzeProgram, byRule_append, byRule_parseIssue?, List.nil_append]

/-- No rule fails on a program, so that every issue that a rule raises bears its name. -/
theorem rule_of_mem_checkUnit_programTree (hu : u ∈ (programTree source program).units)
    (h : issue ∈ (a.checkUnit file (programTree source program) u r).value) : issue.rule = r.id := by
  obtain ⟨violations, hok⟩ : Succeeds (r.apply (programTree source program) u (a.options r)).value :=
    r.succeeds_apply (Php.wellFormed_treeOf _ _) (Php.grammatical_treeOf _ _) hu (a.options r)
  exact rule_of_mem_checkUnit_of_ok file hok h

/-- The issue of a file that does not parse comes first, whatever rules run. Behind it come the issues of each function
or method in their order, rule by rule in the order in which they run, and each issue stems from one function or method
and one rule. So the issues of a rule are those that are found when only this rule runs. All this holds of any program,
and a text is analyzed as the program that can be read of it. -/
theorem analyzeText_rule_by_rule (a : Analyzer) (h : a.Configured) (file : String) (source : Source)
    (program : Php.Program) :
    (∀ b : Analyzer, (b.analyzeProgram file source program).value =
      (parseIssue? file program).toList ++ (b.checkTree file (programTree source program)).value) ∧
    (∀ issue ∈ parseIssue? file program, issue.rule = Issue.parseError) ∧
    (a.checkTree file (programTree source program)).value =
      ((programTree source program).units.product a.enabled).flatMap
        (fun run => (a.checkUnit file (programTree source program) run.1 run.2).value) ∧
    ((programTree source program).units.product a.enabled).Nodup ∧
    (∀ position issue, (a.checkTree file (programTree source program)).value[position]? = some issue →
      ∃! run : Nat × Rule,
        (issue.rule = run.2.id ∧ issue ∈ (a.checkUnit file (programTree source program) run.1 run.2).value) ∧
        StemsFrom (fun run : Nat × Rule => (a.checkUnit file (programTree source program) run.1 run.2).value)
          ((programTree source program).units.product a.enabled) position run) ∧
    (∀ r ∈ a.enabled, (a.setRules [r.id]).enabled = [r] ∧
      Issue.byRule (a.analyzeProgram file source program).value r.id =
        Issue.byRule ((a.setRules [r.id]).analyzeProgram file source program).value r.id) ∧
    ∀ (b : Analyzer) (text : String),
      b.analyzeText file text = b.analyzeProgram file (Source.ofText text) (Php.Program.ofText text) := by
  have hvalue := value_checkTree file a (programTree source program)
  refine ⟨fun b => value_analyzeProgram file source program b, fun issue hissue => ?_, hvalue, ?_,
    fun position issue hissue => ?_, fun r hr => ⟨enabled_setRules_id a r, ?_⟩, fun b text => rfl⟩
  · exact rule_of_mem_parseIssue? file program (Option.mem_toList.2 hissue)
  · exact (Php.wellFormed_treeOf _ _).nodup_units.product h.nodup_enabled
  · rw [hvalue] at hissue
    obtain ⟨run, hstems, hunique⟩ := existsUnique_stemsFrom (List.getElem?_eq_some_iff.1 hissue).1
    have hmem := hstems.mem hissue
    have hrule := rule_of_mem_checkUnit_programTree file source program (List.mem_product.1 hstems.mem_keys).1 hmem
    exact ⟨run, ⟨⟨hrule, hmem⟩, hstems⟩, fun other hother => hunique other hother.2⟩
  · rw [byRule_analyzeProgram, byRule_analyzeProgram, byRule_checkTree file h.nodup_enabled hr]

/-- A function and a method in which both rules find something, in a file that stops parsing behind them. -/
def brokenUnits : String :=
  "<?php function f() { throw $a; return; } class C { function m() { throw $b; return; } } if ("

theorem brokenUnits_rule_by_rule :
    (Analyzer.ofConfig .empty).value.Configured ∧
    ((Analyzer.ofConfig .empty).value.analyzeText "a.php" brokenUnits).value.map (·.rule) =
      ["parse.error", "UndefinedVariable", "UnreachableCode", "UndefinedVariable", "UnreachableCode"] ∧
    Rule.unreachableCode ∈ (Analyzer.ofConfig .empty).value.enabled ∧
    Issue.byRule ((Analyzer.ofConfig .empty).value.analyzeText "a.php" brokenUnits).value Rule.unreachableCode.id =
      Issue.byRule (((Analyzer.ofConfig .empty).value.setRules [Rule.unreachableCode.id]).analyzeText
        "a.php" brokenUnits).value Rule.unreachableCode.id := by
  have henabled : Rule.unreachableCode ∈ (Analyzer.ofConfig .empty).value.enabled := by decide +kernel
  obtain ⟨-, -, -, -, -, hrules, htext⟩ := analyzeText_rule_by_rule _ (.ofConfig .empty) "a.php"
    (Source.ofText brokenUnits) (Php.Program.ofText brokenUnits)
  refine ⟨.ofConfig .empty, by decide +kernel, henabled, ?_⟩
  rw [htext, htext]
  exact (hrules .unreachableCode henabled).2

end Analyzer

end PhpInspect
