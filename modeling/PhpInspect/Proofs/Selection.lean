import PhpInspect.CommandLine.Run
import PhpInspect.Proofs.Independence
import PhpInspect.Proofs.Text.LowerCase

/-! # Rules that are asked for by name

A name is looked up without regard to the case of ASCII letters, but the rules that run are picked without regard to
the case of any letter. Both come to the same because the names of the rules are ASCII words without `k`. So names that
are known are never lost when the rules are picked.
-/

namespace PhpInspect

namespace Rule

variable {r : Rule} {name : String} {names : List String}

theorem ofName?_eq_some_iff :
    ofName? name = some r ↔ name.toList.map Char.toLower = r.id.toList.map Char.toLower := by
  have hlower : ∀ s : String, s.toList.map Char.toLower = s.toLower.toList := fun s => String.toList_map.symm
  rw [hlower, hlower, String.toList_inj]
  constructor
  · intro h
    have hfound := List.find?_some (show all.find? _ = some r from h)
    exact (eq_of_beq hfound).symm
  · intro h
    rw [ofName?, h]
    exact ofName?_id r

theorem isPlain_of_mem_id (r : Rule) : ∀ d ∈ r.id.toList.map Char.toLower, Text.IsPlain d := by
  have hall : (r.id.toList.map Char.toLower).all (Text.IsPlain ·) = true := by cases r <;> decide +kernel
  simpa only [List.all_eq_true, decide_eq_true_eq] using hall

/-- A name has the lower case of a rule's name in all scripts only if it has it in ASCII. -/
theorem toLower_eq_toLower_id : Text.toLower name = Text.toLower r.id ↔ ofName? name = some r := by
  rw [ofName?_eq_some_iff, ← Text.lowerList_eq_iff (isPlain_of_mem_id r) [], Text.toLower, Text.toLower,
    String.ofList_inj, (Text.lowerList_eq_iff (isPlain_of_mem_id r) [] r.id.toList).2 rfl]

theorem hasName_iff : Config.hasName names r.id = true ↔ ∃ name ∈ names, ofName? name = some r := by
  simp [Config.hasName, ← toLower_eq_toLower_id]

/-- The rules that some names are for, each once and in their order. -/
structure IsSelection (names : List String) (rules : List Rule) : Prop where
  mem_iff : ∀ r, r ∈ rules ↔ ∃ name ∈ names, ofName? name = some r
  ordered : rules.Sublist all
  nodup : rules.Nodup
  nonempty : rules ≠ []

theorem isSelection_filter (hne : names ≠ []) (hknown : ∀ name ∈ names, (ofName? name).isSome = true) :
    IsSelection names (all.filter fun r => Config.hasName names r.id) where
  mem_iff r := by simp [mem_all, hasName_iff]
  ordered := List.filter_sublist
  nodup := List.Nodup.filter _ (by decide)
  nonempty := by
    obtain ⟨name, hname⟩ := List.exists_mem_of_ne_nil names hne
    obtain ⟨r, hr⟩ := Option.isSome_iff_exists.1 (hknown name hname)
    exact List.ne_nil_of_mem (List.mem_filter.2 ⟨mem_all r, hasName_iff.2 ⟨name, hname, hr⟩⟩)

end Rule

theorem Config.effectiveRules_of_ne_nil {names : List String} (config : Config) (h : names ≠ []) :
    config.effectiveRules Rule.ids names = (Rule.all.filter fun r => hasName names r.id).map Rule.id := by
  have hnamed : names.isEmpty = false := by simpa using h
  rw [effectiveRules, hnamed, if_neg Bool.false_ne_true, Rule.ids, List.filter_map]
  rfl

theorem Analyzer.rulesNamed_of_ne_nil {names : List String} (config : Config) (h : names ≠ []) :
    rulesNamed config names = Rule.all.filter fun r => Config.hasName names r.id := by
  have hid : Rule.ofName? ∘ Rule.id = some := funext Rule.ofName?_id
  rw [rulesNamed, config.effectiveRules_of_ne_nil h, List.filterMap_map, hid, List.filterMap_some]

/-- One name picks the rule that it is the name of, and nothing else picks just that rule. -/
theorem Config.effectiveRules_singleton (config : Config) (name : String) (r : Rule) :
    config.effectiveRules Rule.ids [name] = [r.id] ↔ Rule.ofName? name = some r := by
  have hname : ∀ q : Rule, hasName [name] q.id = true ↔ Rule.ofName? name = some q := by
    intro q
    simp [Rule.hasName_iff]
  rw [effectiveRules_of_ne_nil config (List.cons_ne_nil name [])]
  constructor
  · intro h
    obtain ⟨q, hq, hid⟩ := List.mem_map.1 (h ▸ List.mem_singleton_self r.id)
    rw [← Rule.id_injective hid]
    exact (hname q).1 (List.mem_filter.1 hq).2
  · intro h
    have hfilter : (Rule.all.filter fun q => hasName [name] q.id) = Rule.all.filter fun q => q = r := by
      apply List.filter_congr
      intro q _
      rw [Bool.eq_iff_iff, hname, h, decide_eq_true_iff, Option.some.injEq, eq_comm]
    rw [hfilter]
    cases r <;> rfl

theorem Analyzer.enabled_setOption (a : Analyzer) (rule name : String) (value : Toml.Value) :
    (a.setOption rule name value).value.enabled = a.enabled := by
  rw [setOption]
  cases Rule.ofName? rule <;> rfl

theorem Analyzer.isSelection_setRules {names : List String} (a : Analyzer) (hne : names ≠ [])
    (hknown : ∀ name ∈ names, (Rule.ofName? name).isSome = true) :
    Rule.IsSelection names (a.setRules names).enabled := by
  rw [setRules, rulesNamed_of_ne_nil a.config hne]
  exact Rule.isSelection_filter hne hknown

/-- The command line lets known names pass, and the rules that then run are those that they name. -/
theorem CommandLine.isSelection_analyzerFor (config : Config) (args : Arguments) (hne : args.rules ≠ [])
    (hknown : ∀ name ∈ args.rules, (Rule.ofName? name).isSome = true) (t : Transcript) :
    ∃ a, ((analyzerFor config args).run.run t).1 = .ok a ∧ Rule.IsSelection args.rules a.enabled := by
  have hfind : args.rules.find? (fun rule => (Rule.ofName? rule).isNone) = none := by
    rw [List.find?_eq_none]
    intro name hname
    simpa [Option.isSome_iff_ne_none] using hknown name hname
  have hnamed : args.rules.isEmpty = false := by simpa using hne
  have hselection := Analyzer.isSelection_setRules (Analyzer.ofConfig config).value hne hknown
  unfold analyzerFor
  rw [hfind, hnamed]
  by_cases hignore : args.ignorePregMatch = true
  · rw [hignore]
    refine ⟨_, rfl, ?_⟩
    rw [Analyzer.enabled_setOption]
    exact hselection
  · rw [Bool.not_eq_true] at hignore
    rw [hignore]
    exact ⟨_, rfl, hselection⟩

namespace Rule

/-- Names are picked as they are looked up. So known names enable the rules that they name and no others, whatever the
configuration says, and the command line enables the same. -/
theorem selection_agrees_with_lookup (config : Config) :
    (∀ name r, ofName? name = some r ↔ config.effectiveRules ids [name] = [r.id]) ∧
    (∀ names, names ≠ [] → (∀ name ∈ names, (ofName? name).isSome = true) → ∀ a b : Analyzer,
      IsSelection names (a.setRules names).enabled ∧ (a.setRules names).enabled = (b.setRules names).enabled) ∧
    ∀ args : CommandLine.Arguments, args.rules ≠ [] → (∀ name ∈ args.rules, (ofName? name).isSome = true) →
      ∀ t, ∃ a, ((CommandLine.analyzerFor config args).run.run t).1 = .ok a ∧ IsSelection args.rules a.enabled := by
  refine ⟨fun name r => (config.effectiveRules_singleton name r).symm, fun names hne hknown a b => ?_,
    CommandLine.isSelection_analyzerFor config⟩
  refine ⟨a.isSelection_setRules hne hknown, ?_⟩
  rw [Analyzer.setRules, Analyzer.setRules, Analyzer.rulesNamed_of_ne_nil _ hne, Analyzer.rulesNamed_of_ne_nil _ hne]

/-- A configuration under which only one rule runs. -/
def withoutUnreachable : Config := { Config.empty with disabled := ["UnreachableCode"] }

/-- The rule that is turned off, asked for twice. -/
theorem selection_of_disabledRule :
    (∀ name ∈ ["UNREACHABLEcode", "UnreachableCode"], (ofName? name).isSome = true) ∧
    IsSelection ["UNREACHABLEcode", "UnreachableCode"]
      ((Analyzer.ofConfig withoutUnreachable).value.setRules ["UNREACHABLEcode", "UnreachableCode"]).enabled ∧
    withoutUnreachable.effectiveRules ids ["UNREACHABLEcode"] = [unreachableCode.id] := by
  have hlookup : ofName? "UNREACHABLEcode" = some .unreachableCode := ofName?_eq_some_iff.2 (by decide)
  have hknown : ∀ name ∈ ["UNREACHABLEcode", "UnreachableCode"], (ofName? name).isSome = true := by
    have hid : ofName? "UnreachableCode" = some .unreachableCode := ofName?_id .unreachableCode
    simp [hlookup, hid]
  obtain ⟨hsingle, hselection, -⟩ := selection_agrees_with_lookup withoutUnreachable
  have henabled := hselection _ (List.cons_ne_nil _ _) hknown (Analyzer.ofConfig withoutUnreachable).value
    (Analyzer.ofConfig withoutUnreachable).value
  exact ⟨hknown, henabled.1, (hsingle _ .unreachableCode).1 hlookup⟩

end Rule

end PhpInspect
