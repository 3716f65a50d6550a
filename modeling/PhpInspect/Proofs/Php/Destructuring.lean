import PhpInspect.Proofs.Php.Shape
import PhpInspect.Proofs.Rule.Definitions

/-! # Destructuring

The keys and values of a pattern all hang below one node, those of the patterns inside of it below nodes of the same
kind. A variable there is defined if it leads a key or a value; for every other variable it does not matter that it
stands in a pattern. So keys count as targets, and what is taken by reference does not.
-/

namespace PhpInspect

namespace Outline

variable {place place' : Place} {kind : Kind} {first : Bool} {os : List Outline}

theorem sitesAll_list : sitesAll place .listExpression first os = os.flatMap (sites .writing) := by
  induction os generalizing first with
  | nil => rfl
  | cons o os ih =>
    rw [sitesAll, ih, List.flatMap_cons]
    rfl

theorem sitesAll_index : sitesAll place .arrayIndexExpression false os = os.flatMap (sites .reading) := by
  induction os with
  | nil => rfl
  | cons o os ih =>
    rw [sitesAll, ih, List.flatMap_cons]
    rfl

theorem sitesAll_congr (h : ∀ first, place.below kind first = place'.below kind first) :
    sitesAll place kind first os = sitesAll place' kind first os := by
  induction os generalizing first with
  | nil => rfl
  | cons o os ih => rw [sitesAll, sitesAll, ih, h]

end Outline

namespace Php

open Outline Outlining

variable {source : Source} {role : Role} {t : Tree} {c : Category} {i j : Nat}

/-! ### Patterns -/

/-- A key or a value of a pattern. -/
inductive Entry where
  | key (e : Expr)
  | value (e : Expr)

namespace Entry

def expr : Entry → Expr
  | .key e | .value e => e

end Entry

namespace Phrase

/-- An array or a list, perhaps in parentheses. -/
def isPattern : {c : Category} → Phrase c → Bool
  | _, .array _ _ | _, .list _ _ => true
  | _, .paren _ e => e.isPattern
  | _, _ => false

/-- The keys and values of a pattern in their order, those of the patterns inside of it included. -/
def entries : {c : Category} → Phrase c → List Entry
  | _, .cons head tail => head.entries ++ tail.entries
  | _, .pair key value => .key key :: value.entries
  | _, .single value => value.entries
  | _, .spreadElement e => [.value e]
  | _, .array _ elements | _, .list _ elements => elements.entries
  | _, .paren _ e => e.entries
  | .expr, e => [.value e]
  | _, _ => []

/-- The variable that an expression leads with: the variable that it is, or at whose elements it looks. -/
def lead? : {c : Category} → Phrase c → Option Span
  | _, .direct s => Option.some s
  | _, .ofVar v => v.lead?
  | _, .paren _ e | _, .index _ e _ | _, .append _ e => e.lead?
  | _, _ => Option.none

/-- The variables of an expression that is read, each with whether it is defined inside of the expression. -/
def readings (source : Source) (e : Expr) : List (String × Bool) :=
  (e.outline source .plain).flatMap (sites .reading)

/-- The variables of a key or a value, each with whether it is defined. -/
def bindings (source : Source) (e : Expr) : List (String × Bool) :=
  match e.lead? with
  | Option.none => e.readings source
  | Option.some _ => (e.readings source).modifyHead fun site => (site.1, true)

end Phrase

/-! ### Leading variables -/

theorem sites_spanning (place : Place) (kind : Kind) (image : String) (s : Span) (children : List Outline) :
    (spanning source kind image s children).sites place =
      (if kind = .var then [(image, place.bare)] else []) ++ sitesAll place kind true children := by
  rw [spanning, sites]
  rfl

/-- A place at which a variable and the base of an index are treated alike. -/
def spot (written : Bool) : Place := ⟨written, false, written⟩

/-- Writing to an expression changes what is said of the variable that leads it, and of no other. -/
def Steers (source : Source) (p : Phrase c) : Prop :=
  match p.lead? with
  | none => ∀ written, (p.outline source .plain).flatMap (sites (spot written)) =
      (p.outline source .plain).flatMap (sites .reading)
  | some x => ∃ rest, ∀ written, (p.outline source .plain).flatMap (sites (spot written)) =
      (source.text x, written) :: rest

theorem steers_of_label? {p : Phrase c} {label : Label} (h : p.label? source .plain = some label := by rfl)
    (hlead : p.lead? = none := by rfl)
    (hkind : (label.kind == .var || label.kind == .arrayIndexExpression) = false := by rfl) : Steers source p := by
  rw [Bool.or_eq_false_iff, beq_eq_false_iff_ne, beq_eq_false_iff_ne] at hkind
  obtain ⟨hvar, hindex⟩ := hkind
  rw [Steers, hlead]
  intro written
  have hbelow : ∀ first, (spot written).below label.kind first = Place.reading.below label.kind first := by
    intro first
    cases hkind : label.kind <;> first | rfl | exact absurd hkind hindex
  rw [p.outline_eq, h, below, List.flatMap_singleton, List.flatMap_singleton, sites, sites, if_neg hvar, if_neg hvar,
    sitesAll_congr hbelow]

theorem steers_direct (s : Span) : Steers source (.direct s) := by
  refine ⟨[], fun written => ?_⟩
  change [variableNode source s].flatMap (sites (spot written)) = _
  rw [List.flatMap_singleton, variableNode, sites_spanning]
  rfl

/-- An index leads with what its base leads with. -/
theorem steers_index {p : Phrase c} {base : Expr} {s : Span} {keys : List Outline} (hbase : Steers source base)
    (hlead : p.lead? = base.lead?) (h : p.outline source .plain =
      [spanning source .arrayIndexExpression "[" s (base.outline source .plain ++ keys)]) : Steers source p := by
  obtain ⟨o, ho⟩ := exists_outline_eq source base .plain rfl
  have hsites : ∀ written, (p.outline source .plain).flatMap (sites (spot written)) =
      (base.outline source .plain).flatMap (sites (spot written)) ++ keys.flatMap (sites .reading) := by
    intro written
    rw [h, ho, List.flatMap_singleton, List.flatMap_singleton, sites_spanning, List.singleton_append, sitesAll,
      sitesAll_index]
    rfl
  rw [Steers] at hbase ⊢
  rw [hlead]
  cases hx : base.lead? with
  | none =>
    rw [hx] at hbase
    intro written
    rw [hsites, hbase written]
    exact (hsites false).symm
  | some x =>
    rw [hx] at hbase
    obtain ⟨rest, hrest⟩ := hbase
    exact ⟨rest ++ keys.flatMap (sites .reading), fun written => by rw [hsites, hrest, List.cons_append]⟩

/-- A phrase that stands for its only part leads with what the part leads with. -/
theorem steers_of_part {d : Category} {p : Phrase c} {q : Phrase d} (h : Steers source q) (hlead : p.lead? = q.lead?)
    (houtline : p.outline source .plain = q.outline source .plain ++ []) : Steers source p := by
  rw [Steers, hlead, houtline, List.append_nil]
  exact h

theorem Phrase.steers : ∀ {c : Category} (p : Phrase c), c = .expr ∨ c = .var → Steers source p
  | _, .direct s, _ => steers_direct s
  | _, .ofVar v, _ => steers_of_part (v.steers (.inr rfl)) rfl rfl
  | _, .paren _ e, _ => steers_of_part (e.steers (.inl rfl)) rfl rfl
  | _, .index _ base _, _ => steers_index (base.steers (.inl rfl)) rfl rfl
  | _, .append _ base, _ => steers_index (base.steers (.inl rfl)) rfl rfl
  | _, .indirect .., _ | _, .nested .., _ | _, .name .., _ | _, .constant .., _ | _, .literal .., _
  | _, .callable .., _ | _, .arrow .., _ | _, .matching .., _ | _, .assign .., _ | _, .binary .., _
  | _, .prefixed .., _ | _, .postfixed .., _ | _, .conditional .., _ | _, .call .., _ | _, .methodCall .., _
  | _, .member .., _ | _, .array .., _ | _, .legacyArray .., _ | _, .list .., _ | _, .closure .., _
  | _, .instantiate .., _ | _, .anonymousClass .., _ | _, .isset .., _ | _, .keyword .., _ | _, .throwing .., _
  | _, .exit .., _ | _, .yieldValue .., _ | _, .yieldPair .., _ | _, .pipe .., _ | _, .interpolated .., _ =>
    steers_of_label?

theorem exists_readings_of_lead? (source : Source) {e : Expr} {x : Span} (hx : e.lead? = some x) : ∃ rest,
    e.readings source = (source.text x, false) :: rest ∧
      (e.outline source .plain).flatMap (sites .writing) = (source.text x, true) :: rest := by
  have hsteers : Steers source e := e.steers (.inl rfl)
  rw [Steers, hx] at hsteers
  obtain ⟨rest, hrest⟩ := hsteers
  exact ⟨rest, hrest false, hrest true⟩

/-- What writing to an expression makes of its variables. -/
theorem sites_writing (e : Expr) : (e.outline source .plain).flatMap (sites .writing) = e.bindings source := by
  rw [Phrase.bindings]
  cases hx : e.lead? with
  | none =>
    have hsteers : Steers source e := e.steers (.inl rfl)
    rw [Steers, hx] at hsteers
    exact hsteers true
  | some x =>
    obtain ⟨rest, hreadings, hwriting⟩ := exists_readings_of_lead? source hx
    simp only [hreadings, hwriting, List.modifyHead_cons]

/-! ### The entries of a pattern -/

/-- The categories of which patterns are made. -/
def Category.inPattern : Category → Bool
  | .expr | .element | .list .element => true
  | _ => false

theorem Category.inPattern_of_list (h : (Category.list c).inPattern = true) : c.inPattern = true := by
  cases c <;> first | rfl | cases h

theorem sites_target_of_plain {e : Expr} (h : e.outline source .target = e.outline source .plain := by rfl)
    (hentries : e.entries = [.value e] := by rfl) : (e.outline source .target).flatMap (sites .writing) =
      e.entries.flatMap fun entry => entry.expr.bindings source := by
  rw [h, hentries, sites_writing, List.flatMap_singleton]
  rfl

theorem sites_list (source : Source) (image : String) (s : Span) (elements : Phrase (.list .element)) :
    [spanning source .listExpression image s (elements.outline source .target ++ [])].flatMap (sites .writing) =
      (elements.outline source .target).flatMap (sites .writing) := by
  rw [List.append_nil, List.flatMap_singleton, sites_spanning, sitesAll_list]
  rfl

/-- The variables of a target are those of its entries. -/
theorem Phrase.sites_target : ∀ {c : Category} (p : Phrase c), c.inPattern = true →
    (p.outline source .target).flatMap (sites .writing) = p.entries.flatMap fun entry => entry.expr.bindings source
  | _, .nil, _ | _, .missing, _ => rfl
  | _, .cons head tail, h => by
    have hhead := head.sites_target (Category.inPattern_of_list h)
    have htail := tail.sites_target h
    rw [outline_cons, entries, List.flatMap_append, List.flatMap_append, hhead, htail]
  | _, .pair key value, _ => by
    have hvalue := value.sites_target rfl
    change (key.outline source .plain ++ (value.outline source .target ++ [])).flatMap (sites .writing) = _
    rw [List.append_nil, List.flatMap_append, entries, List.flatMap_cons, ← hvalue, Entry.expr, sites_writing]
  | _, .single value, _ => by
    have hvalue := value.sites_target rfl
    change (value.outline source .target ++ []).flatMap (sites .writing) = _
    rw [List.append_nil, hvalue, entries]
  | _, .spreadElement e, _ => by
    change (e.outline source .plain ++ []).flatMap (sites .writing) = _
    rw [List.append_nil, entries, List.flatMap_singleton, sites_writing, Entry.expr]
  | _, .paren _ e, _ => by
    have he := e.sites_target rfl
    change (e.outline source .target ++ []).flatMap (sites .writing) = _
    rw [List.append_nil, he, entries]
  | _, .call _ callee _, _ => by cases callee <;> exact sites_target_of_plain
  | _, .closure _ _ captures _, _ => by cases captures <;> exact sites_target_of_plain
  | _, .array s elements, _ => (sites_list source "[" s elements).trans (elements.sites_target rfl)
  | _, .list s elements, _ => (sites_list source "list" s elements).trans (elements.sites_target rfl)
  | _, .ofVar .., _ | _, .name .., _ | _, .constant .., _ | _, .literal .., _ | _, .assign .., _ | _, .binary .., _
  | _, .prefixed .., _ | _, .postfixed .., _ | _, .conditional .., _ | _, .methodCall .., _ | _, .callable .., _
  | _, .member .., _ | _, .index .., _ | _, .append .., _ | _, .legacyArray .., _ | _, .arrow .., _
  | _, .instantiate .., _ | _, .anonymousClass .., _ | _, .isset .., _ | _, .keyword .., _ | _, .throwing .., _
  | _, .exit .., _ | _, .yieldValue .., _ | _, .yieldPair .., _ | _, .pipe .., _ | _, .interpolated .., _
  | _, .matching .., _ => sites_target_of_plain

theorem Phrase.exists_outline_of_isPattern (source : Source) : ∀ {c : Category} (p : Phrase c), p.isPattern = true →
    ∃ image s elements, p.outline source .target =
      [spanning source .listExpression image s (Phrase.outline (c := .list .element) source .target elements ++ [])]
  | _, .array s elements, _ => ⟨"[", s, elements, rfl⟩
  | _, .list s elements, _ => ⟨"list", s, elements, rfl⟩
  | _, .paren _ e, h => by
    obtain ⟨image, s, elements, he⟩ := e.exists_outline_of_isPattern source h
    exact ⟨image, s, elements, (List.append_nil _).trans he⟩

/-- In a pattern, a variable is defined if it leads an entry or is defined inside of the entry. -/
theorem Shows.map_site_pattern {pattern : Expr} (h : t.WellFormed) (hshows : Shows t source .target pattern i)
    (hpattern : pattern.isPattern = true) : (t.descendantsOfKind i .var).map t.site =
      (pattern.entries.flatMap fun entry => entry.expr.bindings source).map Tree.settled := by
  obtain ⟨o, ho, hholds⟩ := hshows
  obtain ⟨image, s, elements, hlist⟩ := pattern.exists_outline_of_isPattern source hpattern
  obtain rfl : o = _ := List.singleton_inj.1 (ho.symm.trans hlist)
  obtain ⟨place, hat⟩ := h.exists_at i
  rw [← pattern.sites_target rfl, hlist, sites_list, hholds.map_site_below h hat]
  change (sitesAll place .listExpression true (elements.outline source .target ++ [])).map Tree.settled = _
  rw [List.append_nil, sitesAll_list]

/-- What is said of the variables of an expression that is returned. -/
theorem Shows.map_site_ret {s : Span} {e : Expr} (h : t.WellFormed)
    (hshows : Shows t source role (.ret s (.some e)) i) :
    (t.descendantsOfKind i .var).map t.site = (e.readings source).map Tree.settled := by
  obtain ⟨o, ho, hholds⟩ := hshows
  cases ho
  obtain ⟨place, hat⟩ := h.exists_at i
  obtain ⟨o, ho⟩ := exists_outline_eq source e .plain rfl
  rw [hholds.map_site_below h hat, Phrase.readings]
  change (sitesAll place .returnStatement true (e.outline source .plain ++ [] ++ [])).map Tree.settled = _
  rw [List.append_nil, List.append_nil, ho, List.flatMap_singleton, sitesAll, sitesAll, List.append_nil]
  rfl

/-! ### Targets -/

/-- An expression is a target at a node: that of an assignment, or the key or the value of a loop. -/
inductive IsTarget (t : Tree) (source : Source) : Expr → Nat → Prop where
  | assignment {role : Role} {s : Span} {target value : Expr} {i a b : Nat} :
      Shows t source role (.assign s target value) i → t.children i = [a, b] → IsTarget t source target a
  | key {role : Role} {s : Span} {subject key value : Expr} {body : Phrase .body} {i a k b c : Nat} :
      Shows t source role (.forEach s subject (.some key) value body) i → t.children i = [a, k, b, c] →
      IsTarget t source key k
  | value {role : Role} {s : Span} {subject value : Expr} {key : Phrase (.option .expr)} {body : Phrase .body}
      {i b c : Nat} {before : List Nat} :
      Shows t source role (.forEach s subject key value body) i → t.children i = before ++ [b, c] →
      IsTarget t source value b

theorem IsTarget.shows {target : Expr} (h : IsTarget t source target i) : Shows t source .target target i := by
  cases h with
  | assignment hshows hchildren =>
    obtain ⟨a, b, hchildren', htarget, -⟩ := hshows.assign
    obtain ⟨rfl, -⟩ := List.cons.inj (hchildren'.symm.trans hchildren)
    exact htarget
  | @key role s subject _ value body n a _ b c hshows hchildren =>
    have hshows : Shows t source role (.forEach s subject (.ofOption (some target)) value body) n := hshows
    obtain ⟨a', keys, b', c', hchildren', -, hkeys, -, -⟩ := hshows.forEach
    cases hkeys with
    | some hkey =>
      obtain ⟨-, htail⟩ := List.cons.inj (hchildren'.symm.trans hchildren)
      obtain ⟨rfl, -⟩ := List.cons.inj htail
      exact hkey
  | @value role s subject _ key body n _ c before hshows hchildren =>
    obtain ⟨key, rfl⟩ := Phrase.exists_eq_ofOption key
    obtain ⟨a', keys, b', c', hchildren', -, -, hvalue, -⟩ := hshows.forEach
    rw [hchildren, ← List.cons_append] at hchildren'
    obtain ⟨-, hlast⟩ := List.append_inj' hchildren' rfl
    obtain ⟨rfl, -⟩ := List.cons.inj hlast
    exact hvalue

/-- In a pattern that is a target, keys and values are treated alike. The variable that leads one is defined. Any other
variable counts as it would if the key or value were returned, so that what is taken by reference is not defined. -/
theorem definitions_in_patterns (source : Source) (statements : List Stmt) :
    (∀ pattern i, IsTarget (treeOf source statements) source pattern i → pattern.isPattern = true →
      ((treeOf source statements).descendantsOfKind i .var).map (treeOf source statements).site =
        (pattern.entries.flatMap fun entry => entry.expr.bindings source).map Tree.settled) ∧
    (∀ (e : Expr) x, e.lead? = some x → ∃ rest, e.readings source = (source.text x, false) :: rest ∧
      e.bindings source = (source.text x, true) :: rest) ∧
    (∀ e : Expr, e.lead? = none → e.bindings source = e.readings source) ∧
    ∀ role s e i, Shows (treeOf source statements) source role (.ret s (.some e)) i →
      ((treeOf source statements).descendantsOfKind i .var).map (treeOf source statements).site =
        (e.readings source).map Tree.settled := by
  have hwf := wellFormed_treeOf source statements
  refine ⟨fun pattern i htarget hpattern => ?_, fun e x hx => ?_, fun e hx => ?_, fun role s e i hshows => ?_⟩
  · exact htarget.shows.map_site_pattern hwf hpattern
  · obtain ⟨rest, hreadings, hwriting⟩ := exists_readings_of_lead? source hx
    exact ⟨rest, hreadings, (sites_writing e).symm.trans hwriting⟩
  · rw [Phrase.bindings, hx]
  · exact hshows.map_site_ret hwf

def patternLoop : Source := .ofText "<?php foreach ($a as [$k => [&$r, $v[$i]], 1 => list($w)]) {}"

/-- The pattern of `patternLoop`. -/
def loopPattern : Expr :=
  .array ⟨21, 57⟩ (.ofList
    [.pair (.ofVar (.direct ⟨22, 24⟩)) (.array ⟨28, 41⟩ (.ofList
      [.single (.prefixed ⟨29, 32⟩ false (.ofVar (.direct ⟨30, 32⟩))),
        .single (.index ⟨34, 40⟩ (.ofVar (.direct ⟨34, 36⟩)) (.ofVar (.direct ⟨37, 39⟩)))])),
      .pair (.literal ⟨43, 44⟩) (.list ⟨48, 56⟩ (.ofList [.single (.ofVar (.direct ⟨53, 55⟩))]))])

def patternLoopStatement : Stmt :=
  .forEach ⟨6, 61⟩ (.ofVar (.direct ⟨15, 17⟩)) .none loopPattern (.stmtBody (.blockStmt (.block ⟨59, 61⟩ .nil)))

def patternLoopTree : Tree := treeOf patternLoop [patternLoopStatement]

theorem isTarget_loopPattern : IsTarget patternLoopTree patternLoop loopPattern 3 := by
  have hchildren : patternLoopTree.children 1 = [2] ++ [3, 14] := by decide +kernel
  obtain ⟨o, ho⟩ : ∃ o, patternLoopStatement.outline patternLoop .plain = [o] := ⟨_, rfl⟩
  have hholds := holdsAll_treeOf patternLoop [patternLoopStatement]
  rw [outlines, List.flatMap_singleton, ho] at hholds
  exact .value ⟨o, ho, hholds.1⟩ hchildren

theorem definitions_in_loopPattern :
    (IsTarget patternLoopTree patternLoop loopPattern 3 ∧ loopPattern.isPattern = true) ∧
    (patternLoopTree.descendantsOfKind 3 .var).map patternLoopTree.site =
      [("$k", .ok true), ("$r", .ok false), ("$v", .ok true), ("$i", .ok false), ("$w", .ok true)] := by
  have hsites := (definitions_in_patterns patternLoop [patternLoopStatement]).1 loopPattern 3 isTarget_loopPattern rfl
  exact ⟨⟨isTarget_loopPattern, rfl⟩, hsites.trans (by decide +kernel)⟩

/-- A key counts as defined, and a value that is taken by reference does not. -/
theorem key_defined_reference_undefined :
    IsTarget patternLoopTree patternLoop loopPattern 3 ∧
    (loopPattern.entries[0]? = some (.key (.ofVar (.direct ⟨22, 24⟩))) ∧ patternLoopTree.site 4 = ("$k", .ok true)) ∧
    loopPattern.entries[1]? = some (.value (.prefixed ⟨29, 32⟩ false (.ofVar (.direct ⟨30, 32⟩)))) ∧
      patternLoopTree.site 7 = ("$r", .ok false) :=
  ⟨isTarget_loopPattern, ⟨rfl, by decide +kernel⟩, rfl, by decide +kernel⟩

end Php

end PhpInspect
