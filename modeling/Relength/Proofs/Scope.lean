import Mathlib
import Relength.Proofs.Settled

/-!
# The lists of siblings in a sheet

A `Scope` is a list of siblings with the selector that its declarations are judged under, and with
the selector of the nearest style rule around it. The two differ where an at-rule stands between
them. A path leads to a scope by the blocks on the way, so a copy that a run inserts does not change
it, and `Scope.at?_run` says what a run leaves at the end of a path.

* `Options.skipped_scope`: under a selector that is to be left alone no declaration changes, and
  `Options.skipped_scope_atRule` shows that it is the selector of the block itself that counts.
-/

namespace Relength

/-- What stands in front of a block, and the nodes in it. -/
def Node.block? : Node → Option (Head × List Node)
  | .block head _ children => some (head, children)
  | _ => none

/-- The blocks directly in a list of nodes. -/
def blocks (nodes : List Node) : List (Head × List Node) := nodes.filterMap Node.block?

/-- A list of siblings in its place. -/
structure Scope where
  nodes : List Node
  /-- The selector of the rule that they stand directly in. -/
  selector : Option Text
  /-- The selector of the nearest style rule around them. -/
  nearest : Option Text
  deriving DecidableEq, Repr

namespace Scope

/-- The scope of a block among the nodes. -/
def enter (sc : Scope) (b : Head × List Node) : Scope :=
  ⟨b.2, b.1.selector?, b.1.selector?.or sc.nearest⟩

/-- The scope at the end of a path, whose indexes count blocks. -/
def at? (sc : Scope) : List Nat → Option Scope
  | [] => some sc
  | i :: path => (blocks sc.nodes)[i]?.bind fun b => (sc.enter b).at? path

/-- The nodes that a run makes of these. -/
def run (o : Options) (sc : Scope) : Scope :=
  { sc with nodes := (Run.nodes o sc.selector [] sc.nodes).1 }

end Scope

/-- The scope at a path in a sheet. -/
def Sheet.scope? (s : Sheet) (path : List Nat) : Option Scope :=
  Scope.at? ⟨s.nodes, none, none⟩ path

/-! ## The values of a property -/

/-- The values that a property is declared with, in order. -/
def values (property : Text) (nodes : List Node) : List Text :=
  ((declarations nodes).filter (·.property == property)).map Declaration.value

theorem values_append (property : Text) (a b : List Node) :
    values property (a ++ b) = values property a ++ values property b := by
  simp [values, declarations]

theorem values_declaration_cons (property : Text) (d : Declaration) (rest : List Node) :
    values property (.declaration d :: rest) =
      (if d.property = property then [d.value] else []) ++ values property rest := by
  by_cases h : d.property = property <;> simp [values, declarations, Node.declaration?, h]

theorem values_cons_of_none (property : Text) {n : Node} (h : n.declaration? = none)
    (rest : List Node) : values property (n :: rest) = values property rest := by
  simp [values, declarations, h]

theorem isDeclared_iff_mem (nodes : List Node) (property value : Text) :
    isDeclared nodes property value = true ↔ value ∈ values property nodes := by
  simp only [isDeclared, values, List.any_eq_true, Bool.and_eq_true, beq_iff_eq, List.mem_map,
    List.mem_filter]
  constructor
  · rintro ⟨d, hd, hp, hv⟩
    exact ⟨d, ⟨hd, hp⟩, hv⟩
  · rintro ⟨d, ⟨hd, hp⟩, hv⟩
    exact ⟨d, hd, hp, hv⟩

theorem Run.values_declaration_ne {o : Options} {selector : Option Text} {property : Text}
    {d : Declaration} (hp : d.property ≠ property)
    (siblings : List Node) : values property (declaration o selector siblings d).1 = [] := by
  simp only [declaration]
  split
  · next e _ =>
    cases e <;>
      simp [Edit.apply, values, declarations, Node.declaration?, Declaration.withValue, hp]
  · simp [values, declarations, Node.declaration?, hp]

/-! ## A run keeps paths -/

namespace Run

theorem blocks_declaration (o : Options) (selector : Option Text) (siblings : List Node)
    (d : Declaration) : blocks (declaration o selector siblings d).1 = [] := by
  simp only [declaration]
  split
  · next e _ => cases e <;> rfl
  · rfl

/-- A run keeps the blocks of a list of siblings, each with what becomes of it. -/
theorem blocks_nodes (o : Options) (selector : Option Text) (done rest : List Node) :
    blocks (nodes o selector done rest).1 =
      (blocks rest).map fun b => ((head o b.1).1, (nodes o b.1.selector? [] b.2).1) := by
  fun_induction nodes o selector done rest with
  | case1 => rfl
  | case2 selector done d rest now next ih =>
    rw [blocks, List.filterMap_append]
    change blocks now.1 ++ blocks next.1 = _
    rw [blocks_declaration, ih]
    rfl
  | case3 selector done h spacing children rest h' inner node next ihc ih =>
    change (h'.1, inner.1) :: blocks next.1 = _
    rw [ih]
    rfl
  | case4 selector done rule spacing rest rule' node next ih => exact ih
  | case5 selector done before text rest next ih => exact ih
  | case6 selector done before text terminated rest next ih => exact ih

end Run

theorem Scope.enter_run (o : Options) (sc : Scope) (b : Head × List Node) :
    (sc.run o).enter ((Run.head o b.1).1, (Run.nodes o b.1.selector? [] b.2).1) =
      (sc.enter b).run o := by
  simp only [enter, run, Run.selector?_head]

/-- At the end of a path stands, after a run, what a run makes of the nodes that stood there. -/
theorem Scope.at?_run (o : Options) (sc : Scope) (path : List Nat) :
    (sc.run o).at? path = (sc.at? path).map (Scope.run o) := by
  induction path generalizing sc with
  | nil => rfl
  | cons i path ih =>
    rw [at?, at?]
    have hblocks : blocks (sc.run o).nodes = _ := Run.blocks_nodes o sc.selector [] sc.nodes
    rw [hblocks, List.getElem?_map]
    cases (blocks sc.nodes)[i]? with
    | none => rfl
    | some b =>
      change ((sc.run o).enter _).at? path = ((sc.enter b).at? path).map (Scope.run o)
      rw [enter_run, ih]

theorem Options.scope?_process {o : Options} {s : Sheet} (hex : o.excludes s.path = false)
    (path : List Nat) : (o.process s).sheet.scope? path = (s.scope? path).map (Scope.run o) := by
  rw [process, if_neg (by simp [hex])]
  exact Scope.at?_run o ⟨s.nodes, none, none⟩ path

theorem Options.process_of_excludes {o : Options} {s : Sheet} (hex : o.excludes s.path = true) :
    (o.process s).sheet = s := by
  rw [process, if_pos hex]

/-! ## Selectors that are left alone -/

/-- Under a selector that is to be left alone every node stays, up to its params and its block. -/
theorem Run.declaration?_nodes {o : Options} {selector : Option Text}
    (hskip : o.skipsSelector selector = true) (done rest : List Node) :
    (nodes o selector done rest).1.map Node.declaration? = rest.map Node.declaration? := by
  fun_induction nodes o selector done rest with
  | case1 => rfl
  | case2 selector done d rest now next ih =>
    have hnone : (o.judge d selector (done ++ .declaration d :: rest)).edit? = none :=
      (o.judge_eq_none_iff d selector _).mpr (.inr (.inr (.inl hskip)))
    have hnow : now.1 = [.declaration d] := by
      simp only [now, declaration]
      rw [hnone]
    rw [hnow]
    exact congrArg (List.cons _) (ih hskip)
  | case3 selector done h spacing children rest h' inner node next ihc ih =>
    exact congrArg (List.cons _) (ih hskip)
  | case4 selector done rule spacing rest rule' node next ih =>
    exact congrArg (List.cons _) (ih hskip)
  | case5 selector done before text rest next ih => exact congrArg (List.cons _) (ih hskip)
  | case6 selector done before text terminated rest next ih =>
    exact congrArg (List.cons _) (ih hskip)

/-- Where no at-rule stands between a list of siblings and the nearest style rule around it, and the
selector of that rule is to be left alone, no declaration in the list changes or is given a copy. -/
theorem Options.skipped_scope (o : Options) (s : Sheet) (path : List Nat) (sc : Scope)
    (hsc : s.scope? path = some sc) (hskip : o.skipsSelector sc.nearest = true)
    (hdirect : sc.selector = sc.nearest) :
    ∃ nodes, (o.process s).sheet.scope? path = some { sc with nodes := nodes } ∧
      nodes.map Node.declaration? = sc.nodes.map Node.declaration? := by
  cases hex : o.excludes s.path with
  | true =>
    rw [process_of_excludes hex]
    exact ⟨sc.nodes, hsc, rfl⟩
  | false =>
    rw [scope?_process hex, hsc]
    refine ⟨(sc.run o).nodes, rfl, ?_⟩
    exact Run.declaration?_nodes (by rw [hdirect]; exact hskip) [] sc.nodes

/-- The default options, with rules left alone that have an `a` in their selector. -/
def Options.skippingA : Options := { default with selectorBlackList := [.literal ['a']] }

theorem Options.skipped_scope_a :
    (Sheet.parse "a{b:1px;c:2px}".toList none).scope? [0] =
        some ⟨[.declaration ⟨['b'], "1px".toList, false, [], [':'], [], []⟩,
          .declaration ⟨['c'], "2px".toList, false, [], [':'], [], []⟩], some ['a'], some ['a']⟩ ∧
      skippingA.skipsSelector (some ['a']) = true ∧
      ∃ nodes,
        (skippingA.process (.parse "a{b:1px;c:2px}".toList none)).sheet.scope? [0] =
            some ⟨nodes, some ['a'], some ['a']⟩ ∧
          nodes.map Node.declaration? =
            [some ⟨['b'], "1px".toList, false, [], [':'], [], []⟩,
              some ⟨['c'], "2px".toList, false, [], [':'], [], []⟩] := by
  have hsc : (Sheet.parse "a{b:1px;c:2px}".toList none).scope? [0] =
      some ⟨[.declaration ⟨['b'], "1px".toList, false, [], [':'], [], []⟩,
        .declaration ⟨['c'], "2px".toList, false, [], [':'], [], []⟩], some ['a'], some ['a']⟩ := by
    cbv
  have hskip : skippingA.skipsSelector (some ['a']) = true := by decide
  exact ⟨hsc, hskip, skippingA.skipped_scope _ [0] _ hsc hskip rfl⟩

/-- An at-rule in between makes its declarations ones of no rule, and they are converted. -/
theorem Options.skipped_scope_atRule :
    ¬∀ (o : Options) (s : Sheet) (path : List Nat) (sc : Scope),
      s.scope? path = some sc → o.skipsSelector sc.nearest = true →
      ∃ nodes, (o.process s).sheet.scope? path = some { sc with nodes := nodes } ∧
        nodes.map Node.declaration? = sc.nodes.map Node.declaration? := by
  intro h
  have hsc : (Sheet.parse "a{@media x{b:1px}}".toList none).scope? [0, 0] =
      some ⟨[.declaration ⟨['b'], "1px".toList, false, [], [':'], [], []⟩], none, some ['a']⟩ := by
    cbv
  obtain ⟨nodes, hnodes, hdecl⟩ := h skippingA _ [0, 0] _ hsc (by decide)
  rw [scope?_process rfl, hsc] at hnodes
  have hconvert : skippingA.convert "1px".toList = "2rpx".toList := by
    have hformat : skippingA.conversion.format "1".toList = "2rpx".toList := by decide +kernel
    have hreplace (f : Text → Text) : replacePx f "1px".toList = f "1".toList ++ [] := by cbv
    rw [convert, Conversion.convert, hreplace, hformat, List.append_nil]
  have hjudge : (skippingA.judge ⟨['b'], "1px".toList, false, [], [':'], [], []⟩ none
      [.declaration ⟨['b'], "1px".toList, false, [], [':'], [], []⟩]).edit? =
        some (.replace "2rpx".toList) := by
    rw [judge, hconvert]
    rfl
  have hrun := congrArg Scope.nodes (Option.some.inj hnodes)
  simp only [Scope.run, Run.nodes, Run.declaration, List.nil_append, hjudge] at hrun
  rw [← hrun] at hdecl
  revert hdecl
  decide

end Relength
