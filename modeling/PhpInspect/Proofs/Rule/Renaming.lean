import Mathlib.Logic.Equiv.Basic
import PhpInspect.Proofs.Rule.Isolation

/-! # Names stand for themselves only

Names of variables are compared with each other, with `$this` and with the names that every scope shares, and nothing
else is read from them. So if variables and parameters get other names, different names for different ones, the same
variables are undefined.
-/

namespace PhpInspect

variable {r : String → String} {t : Tree} {i f u : Nat}

/-- The kinds whose image is the name of a variable. -/
def Kind.isNamed : Kind → Bool
  | .var | .variableDeclarator => true
  | _ => false

/-- The same violation at a variable with another name. -/
def Violation.rename (r : String → String) (v : Violation) : Violation := { v with token := r v.token }

namespace Tree

/-- Gives other names to all variables and parameters. -/
def rename (r : String → String) (t : Tree) : Tree :=
  ⟨t.nodes.map fun n => if n.kind.isNamed then { n with image := r n.image } else n⟩

theorem node_rename (r : String → String) (t : Tree) (i : Nat) : (t.rename r).node i =
    { t.node i with image := if (t.kind i).isNamed then r (t.image i) else t.image i } := by
  simp only [node, rename, kind, image, Array.getD_eq_getD_getElem?, Array.getElem?_map]
  cases t.nodes[i]? with
  | none => rfl
  | some n => simp only [Option.map_some, Option.getD_some]; split_ifs <;> rfl

theorem image_rename_of_isNamed (hi : (t.kind i).isNamed = true) : (t.rename r).image i = r (t.image i) := by
  simp [image, node_rename, hi]

theorem image_rename_of_not_isNamed (hi : (t.kind i).isNamed = false) : (t.rename r).image i = t.image i := by
  simp [image, node_rename, hi]

theorem alike_rename (r : String → String) (t : Tree) : t.Alike (t.rename r) where
  size := by simp [size, rename]
  kind := by ext i; simp only [kind, node_rename]
  parent := by ext i; simp only [parent, node_rename]
  children := by ext i; simp only [children, node_rename]
  beginLine := by ext i; simp only [beginLine, node_rename]
  endLine := by ext i; simp only [endLine, node_rename]
  isAbstract := by ext i; simp only [isAbstract, node_rename]

end Tree

namespace UndefinedVariable

/-- Different names stay different, and the names that no scope has for itself stay as they are. -/
structure IsRenaming (r : String → String) : Prop where
  injective : r.Injective
  this : r "$this" = "$this"
  superglobals : ∀ name ∈ Tree.superglobals, r name = name

theorem kind_of_mem_locals (hi : i ∈ locals t f) : t.kind i = .var :=
  beq_iff_eq.1 (List.mem_filter.1 (List.mem_of_mem_filter hi)).2

theorem image_of_mem_locals (hi : i ∈ locals t f) : (t.rename r).image i = r (t.image i) :=
  Tree.image_rename_of_isNamed (by rw [kind_of_mem_locals hi]; rfl)

/-- The names below a node of a kind that has names. -/
theorem map_image_rename {kind : Kind} (hkind : kind.isNamed = true) (i : Nat) :
    ((t.rename r).descendantsOfKind i kind).map (t.rename r).image =
      ((t.descendantsOfKind i kind).map t.image).map r := by
  rw [(t.alike_rename r).descendantsOfKind, List.map_map]
  refine List.map_congr_left fun d hd => Tree.image_rename_of_isNamed ?_
  rw [beq_iff_eq.1 (List.mem_filter.1 hd).2, hkind]

theorem parameterNames_rename : parameterNames (t.rename r) f = (parameterNames t f).map (List.map r) := by
  rw [parameterNames, parameterNames, (t.alike_rename r).requireChild]
  cases t.requireChild f .formalParameters with
  | error e => rfl
  | ok list => exact congrArg Except.ok (map_image_rename rfl list)

theorem capturedNames_rename : capturedNames (t.rename r) f = (capturedNames t f).map r := by
  rw [capturedNames, capturedNames, (t.alike_rename r).kind, (t.alike_rename r).firstChildOfKind]
  split_ifs
  · cases t.firstChildOfKind f .closureUse with
    | none => rfl
    | some uses => exact map_image_rename rfl uses
  · rfl

section Renaming

variable (hr : IsRenaming r)

include hr

theorem IsRenaming.contains_map (names : List String) (name : String) :
    (names.map r).contains (r name) = names.contains name := by
  simp [List.contains_eq_mem, hr.injective.eq_iff]

theorem IsRenaming.isLocalName (name : String) : Tree.isLocalName (r name) = Tree.isLocalName name := by
  have hthis : r name = "$this" ↔ name = "$this" := by
    rw [← hr.injective.eq_iff (a := name), hr.this]
  have hglobals : Tree.superglobals.map r = Tree.superglobals :=
    (List.map_congr_left hr.superglobals).trans (List.map_id _)
  have hcontains := hr.contains_map Tree.superglobals name
  rw [hglobals] at hcontains
  have hne : (r name != "$this") = (name != "$this") := by
    rw [Bool.eq_iff_iff, bne_iff_ne, bne_iff_ne, ne_eq, ne_eq, hthis]
  rw [Tree.isLocalName, Tree.isLocalName, hcontains, hne]

theorem locals_rename : locals (t.rename r) f = locals t f := by
  rw [locals, locals, (t.alike_rename r).descendantsOfKind, owningScope_alike (t.alike_rename r)]
  refine List.filter_congr fun v hv => ?_
  have hkind : t.kind v = .var := beq_iff_eq.1 (List.mem_filter.1 hv).2
  have himage : (t.rename r).image v = r (t.image v) := Tree.image_rename_of_isNamed (by rw [hkind]; rfl)
  rw [Tree.isLocalVariable, Tree.isLocalVariable, (t.alike_rename r).kind, himage, hr.isLocalName]

theorem firstOfImage_rename {vs : List Nat} (hvs : ∀ v ∈ vs, (t.rename r).image v = r (t.image v))
    (seen : List String) : firstOfImage (t.rename r) (seen.map r) vs = firstOfImage t seen vs := by
  induction vs generalizing seen with
  | nil => rfl
  | cons v vs ih =>
    obtain ⟨hv, hvs⟩ := List.forall_mem_cons.1 hvs
    rw [firstOfImage, firstOfImage, hv, hr.contains_map, ih hvs, ← List.map_cons, ih hvs]

/-- In each frame the same variables are undefined. -/
theorem undefinedIn_rename (settings : Settings) : undefinedIn (t.rename r) settings f = undefinedIn t settings f := by
  have ha := t.alike_rename r
  have hpreg : isPregMatchOutput (t.rename r) = isPregMatchOutput t :=
    isPregMatchOutput_alike ha fun call hcall => Tree.image_rename_of_not_isNamed (by rw [hcall]; rfl)
  have hfirst : firstOfImage (t.rename r) [] (locals t f) = firstOfImage t [] (locals t f) :=
    firstOfImage_rename hr (fun v hv => image_of_mem_locals hv) []
  rw [undefinedIn, undefinedIn, parameterNames_rename, capturedNames_rename, locals_rename hr, hfirst,
    isDefinition_alike ha, hpreg]
  cases parameterNames t f with
  | error e => rfl
  | ok parameters =>
    -- Names are compared with names of parameters and of `use` clauses, which are renamed as well.
    have hunbound : (firstOfImage t [] (locals t f)).filter
          (fun v => !(parameters.map r ++ (capturedNames t f).map r).contains ((t.rename r).image v)) =
        (firstOfImage t [] (locals t f)).filter
          (fun v => !(parameters ++ capturedNames t f).contains (t.image v)) := by
      refine List.filter_congr fun v hv => ?_
      rw [image_of_mem_locals ((firstOfImage_sublist [] _).subset hv), ← List.map_append, hr.contains_map]
    simp only [Except.map, bind, Except.bind, hunbound]

theorem report_rename (settings : Settings) : report (t.rename r) settings u =
    (report t settings u).map (List.map (Violation.rename r)) := by
  have hundefined : undefinedIn (t.rename r) settings = undefinedIn t settings :=
    funext fun f => undefinedIn_rename hr settings
  rw [report, report, frames_alike (t.alike_rename r), hundefined]
  cases hfound : (frames t settings.analyzeClosures u).mapM (undefinedIn t settings) with
  | error e => rfl
  | ok found =>
    have hviolation : ∀ i ∈ found.flatten, Rule.undefinedVariable.violationAt (t.rename r) i =
        (Rule.undefinedVariable.violationAt t i).rename r := by
      intro i hi
      obtain ⟨vs, hvs, hi⟩ := List.mem_flatten.1 hi
      obtain ⟨f, -, hf⟩ := exists_of_mem_mapM hfound hvs
      have himage := image_of_mem_locals (r := r) ((sublist_of_undefinedIn hf).subset hi)
      rw [Rule.violationAt, Rule.violationAt, Violation.rename, (t.alike_rename r).beginLine,
        (t.alike_rename r).endLine, himage]
    change Except.ok _ = Except.ok _
    rw [List.map_map]
    exact congrArg Except.ok (List.map_congr_left hviolation)

end Renaming

/-- If all variables and parameters of a tree get other names, the rule notes the same and fails alike on each node, or
reports the same violations with the other names. -/
theorem apply_rename (r : String → String) (hr : IsRenaming r) (t : Tree) (u : Nat) (o : Options) :
    (Rule.undefinedVariable.apply (t.rename r) u o).messages = (Rule.undefinedVariable.apply t u o).messages ∧
    (Rule.undefinedVariable.apply (t.rename r) u o).value =
      (Rule.undefinedVariable.apply t u o).value.map (List.map (Violation.rename r)) := by
  rw [Rule.apply, Rule.apply, (t.alike_rename r).isAbstract]
  split_ifs
  · exact ⟨rfl, rfl⟩
  · exact ⟨rfl, report_rename hr _⟩

/-- A function that reads one variable, and a closure in it that captures this one and reads another. -/
def twoNames : String :=
  "<?php function f($c) { throw $b; return function () use ($b) { throw $this; return $a; throw $b; }; }"

def twoNamesTree : Tree := Php.treeOf (Source.ofText twoNames) (Php.Program.ofText twoNames).statements

/-- Exchanging the two names exchanges them in the report. -/
theorem apply_rename_twoNames :
    IsRenaming (Equiv.swap "$a" "$b") ∧
    (Rule.undefinedVariable.apply twoNamesTree 2 (.empty "")).value.map (List.map Violation.token) = .ok ["$b", "$a"] ∧
    (Rule.undefinedVariable.apply (twoNamesTree.rename (Equiv.swap "$a" "$b")) 2 (.empty "")).value =
      (Rule.undefinedVariable.apply twoNamesTree 2 (.empty "")).value.map
        (List.map (Violation.rename (Equiv.swap "$a" "$b"))) := by
  have hswap : IsRenaming (Equiv.swap "$a" "$b") := ⟨Equiv.injective _, by decide, by decide⟩
  exact ⟨hswap, by decide +kernel, (apply_rename _ hswap twoNamesTree 2 (.empty "")).2⟩

end UndefinedVariable

end PhpInspect
