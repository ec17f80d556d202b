import Relength.Proofs.LastValue

/-!
# What a run writes

`Run.passed` is what stands in front of a node when the run comes to it, so that
`done ++ .declaration d :: rest` are the siblings which the declaration `d` is judged among.

* `Options.written_once`: a written value is new to its declaration and to its siblings, and no
  later edit writes it again or takes it away.
* `Options.converted_declared`: a declaration that is to be converted has its converted value among
  the siblings at the end, also where that value kept it from being edited.
-/

namespace Relength

/-- The value that an edit writes. -/
def Edit.value : Edit → Text
  | .replace value => value
  | .insertAfter value => value

namespace Run

variable {o : Options} {selector : Option Text} {property value : Text}

/-- What stands in the place of a node when a run has passed it. -/
def inPlaceOf (o : Options) (selector : Option Text) (siblings : List Node) : Node → List Node
  | .declaration d => (declaration o selector siblings d).1
  | .block h spacing children =>
    [.block (head o h).1 spacing (nodes o h.selector? [] children).1]
  | .statement rule spacing => [.statement (atRule o rule).1 spacing]
  | .comment before text => [.comment before text]
  | .other before text terminated => [.other before text terminated]

theorem declaration_fst (siblings : List Node) (d : Declaration) :
    (declaration o selector siblings d).1 =
      ((o.declarationEdit d selector siblings).map (·.apply d)).getD [.declaration d] := by
  simp only [declaration, Options.declarationEdit]
  split
  · next e he =>
    rw [he]
    rfl
  · next he =>
    rw [he]
    rfl

theorem nodes_cons (done : List Node) (n : Node) (rest : List Node) :
    (nodes o selector done (n :: rest)).1 =
      inPlaceOf o selector (done ++ n :: rest) n ++
        (nodes o selector (done ++ inPlaceOf o selector (done ++ n :: rest) n) rest).1 := by
  cases n <;> simp only [nodes, inPlaceOf, List.singleton_append]

/-- What stands in front of `rest` when a run that has the `done` siblings behind it has passed the
next ones too. -/
def passed (o : Options) (selector : Option Text) (done : List Node) :
    List Node → List Node → List Node
  | [], _ => done
  | n :: before, rest =>
    passed o selector (done ++ inPlaceOf o selector (done ++ n :: (before ++ rest)) n) before rest

theorem nodes_append (done before rest : List Node) :
    done ++ (nodes o selector done (before ++ rest)).1 =
      passed o selector done before rest ++
        (nodes o selector (passed o selector done before rest) rest).1 := by
  induction before generalizing done with
  | nil => rfl
  | cons n before ih => rw [List.cons_append, nodes_cons, passed, ← ih, List.append_assoc]

/-- The nodes at the end, taken apart at a declaration. -/
theorem nodes_at_declaration (before : List Node) (d : Declaration) (rest : List Node) :
    let done := passed o selector [] before (.declaration d :: rest)
    let now := (declaration o selector (done ++ .declaration d :: rest) d).1
    (nodes o selector [] (before ++ .declaration d :: rest)).1 =
      done ++ now ++ (nodes o selector (done ++ now) rest).1 := by
  intro done now
  have happend := @nodes_append o selector [] before (.declaration d :: rest)
  rw [List.nil_append, nodes_cons] at happend
  rw [happend, List.append_assoc]
  rfl

/-! ## A value that is not written again -/

theorem values_edit (e : Edit) (d : Declaration) :
    values d.property (e.apply d) = [e.value] ∨
      values d.property (e.apply d) = [d.value, e.value] := by
  cases e with
  | replace value =>
    exact .inl (by simp [Edit.apply, Edit.value, values, declarations, Node.declaration?,
      Declaration.withValue])
  | insertAfter value =>
    exact .inr (by simp [Edit.apply, Edit.value, values, declarations, Node.declaration?,
      Declaration.withValue])

/-- What is declared among the passed siblings and no longer behind them is not written by the next
edit. -/
theorem not_mem_values_declaration {d : Declaration} {done rest : List Node}
    (hdone : value ∈ values property done)
    (hrest : value ∉ values property (.declaration d :: rest)) :
    value ∉ values property (declaration o selector (done ++ .declaration d :: rest) d).1 := by
  rw [values_declaration_cons, List.mem_append, not_or] at hrest
  by_cases hp : d.property = property
  · subst hp
    rw [if_pos rfl, List.mem_singleton] at hrest
    simp only [declaration]
    cases he : (o.judge d selector (done ++ .declaration d :: rest)).edit? with
    | none => simpa [values, declarations, Node.declaration?] using hrest.1
    | some e =>
      have hne : value ≠ e.value := by
        obtain ⟨hnot, rfl⟩ := Options.edit_of_judge he
        rintro rfl
        rw [isDeclared_append, Bool.or_eq_false_iff] at hnot
        have hmem := (isDeclared_iff_mem _ _ _).mpr hdone
        split at hmem <;> exact absurd (hmem.symm.trans hnot.1) Bool.noConfusion
      rcases values_edit e d with h | h
      · simpa [h] using hne
      · simpa [h, hne] using hrest.1
  · rw [values_declaration_ne hp]
    exact List.not_mem_nil

theorem not_mem_values_nodes {done rest : List Node} (hdone : value ∈ values property done)
    (hrest : value ∉ values property rest) :
    value ∉ values property (nodes o selector done rest).1 := by
  fun_induction nodes o selector done rest with
  | case1 => exact hrest
  | case2 selector done d rest now next ih =>
    have hnow : value ∉ values property now.1 := not_mem_values_declaration hdone hrest
    rw [values_declaration_cons, List.mem_append, not_or] at hrest
    have hnext := ih (by rw [values_append]; exact List.mem_append_left _ hdone) hrest.2
    rw [values_append, List.mem_append, not_or]
    exact ⟨hnow, hnext⟩
  | case3 selector done head spacing children rest h' inner node next ihc ih =>
    rw [values_cons_of_none property rfl] at hrest ⊢
    exact ih (by rw [values_passed done rfl]; exact hdone) hrest
  | case4 selector done rule spacing rest rule' node next ih =>
    rw [values_cons_of_none property rfl] at hrest ⊢
    exact ih (by rw [values_passed done rfl]; exact hdone) hrest
  | case5 selector done before text rest next ih =>
    rw [values_cons_of_none property rfl] at hrest ⊢
    exact ih (by rw [values_passed done rfl]; exact hdone) hrest
  | case6 selector done before text terminated rest next ih =>
    rw [values_cons_of_none property rfl] at hrest ⊢
    exact ih (by rw [values_passed done rfl]; exact hdone) hrest

/-- A value is written for a declaration only if none of its siblings has it, and then it stays the
only one. -/
theorem count_written {d : Declaration} {done rest : List Node} {e : Edit}
    (he : (o.judge d selector (done ++ .declaration d :: rest)).edit? = some e) :
    let siblings := done ++ e.apply d
    e.value ≠ d.value ∧
      (values d.property (siblings ++ (nodes o selector siblings rest).1)).count e.value = 1 := by
  intro siblings
  have hnot : e.value ∉ values d.property (done ++ .declaration d :: rest) := by
    obtain ⟨hnot, rfl⟩ := Options.edit_of_judge he
    rw [← isDeclared_iff_mem]
    split <;> simp [Edit.value, hnot]
  simp only [values_append, values_declaration_cons, if_pos, List.mem_append, List.mem_singleton,
    not_or] at hnot
  obtain ⟨hdone, hne, hrest⟩ := hnot
  have hsiblings : (values d.property siblings).count e.value = 1 := by
    rw [values_append, List.count_append, List.count_eq_zero_of_not_mem hdone]
    rcases values_edit e d with h | h
    · simp [h]
    · simp [h, Ne.symm hne]
  refine ⟨hne, ?_⟩
  have hmem : e.value ∈ values d.property siblings := by
    rw [← List.count_pos_iff, hsiblings]
    exact Nat.one_pos
  rw [values_append, List.count_append, hsiblings,
    List.count_eq_zero_of_not_mem (not_mem_values_nodes hmem hrest)]

/-! ## A value that stays -/

/-- A run that inserts copies takes no declaration away. -/
theorem mem_declaration (hcopies : o.replace = false) (siblings : List Node) (d : Declaration) :
    Node.declaration d ∈ (declaration o selector siblings d).1 := by
  simp only [declaration]
  cases he : (o.judge d selector siblings).edit? with
  | none => exact List.mem_singleton_self _
  | some e =>
    obtain ⟨-, rfl⟩ := Options.edit_of_judge he
    simp [hcopies, Edit.apply]

theorem isDeclared_nodes_of_copies (hcopies : o.replace = false) (done rest : List Node)
    (h : isDeclared rest property value = true) :
    isDeclared (nodes o selector done rest).1 property value = true := by
  rw [isDeclared_iff_mem] at h ⊢
  fun_induction nodes o selector done rest with
  | case1 => exact h
  | case2 selector done d rest now next ih =>
    rw [values_append, List.mem_append]
    rw [values_declaration_cons, List.mem_append] at h
    rcases h with h | h
    · split at h
      · next hp =>
        rw [List.mem_singleton] at h
        subst hp h
        exact .inl ((isDeclared_iff_mem _ _ _).mp (isDeclared_of_mem (mem_declaration hcopies _ d)))
      · cases h
    · exact .inr (ih h)
  | case3 selector done head spacing children rest h' inner node next ihc ih =>
    rw [values_cons_of_none property rfl] at h ⊢
    exact ih h
  | case4 selector done rule spacing rest rule' node next ih =>
    rw [values_cons_of_none property rfl] at h ⊢
    exact ih h
  | case5 selector done before text rest next ih =>
    rw [values_cons_of_none property rfl] at h ⊢
    exact ih h
  | case6 selector done before text terminated rest next ih =>
    rw [values_cons_of_none property rfl] at h ⊢
    exact ih h

/-- A value that is declared stays declared through the rest of a run, if the run inserts copies or
the conversion leaves the value alone. -/
theorem isDeclared_rest (hstays : o.replace = true → o.convert value = value)
    {done rest : List Node} (h : isDeclared (done ++ rest) property value = true) :
    isDeclared (done ++ (nodes o selector done rest).1) property value = true := by
  cases hr : o.replace with
  | true => exact isDeclared_nodes selector done rest (hstays hr) h
  | false =>
    rw [isDeclared_append, Bool.or_eq_true] at h ⊢
    exact h.imp id (isDeclared_nodes_of_copies hr done rest)

/-- When a run has passed a declaration, its converted value is declared among the siblings. -/
theorem isDeclared_convert {d : Declaration} (hproperty : o.skipsProperty d.property = false)
    (hselector : o.skipsSelector selector = false) (done rest : List Node) :
    let now := (declaration o selector (done ++ .declaration d :: rest) d).1
    isDeclared (done ++ now ++ rest) d.property (o.convert d.value) = true := by
  intro now
  have hnow : values d.property now = _ := values_declaration (by simp) hproperty hselector
  rw [isDeclared_iff_mem, values_append, values_append, hnow]
  split
  · next h => simpa [values_append, values_declaration_cons] using h
  · split <;> simp

end Run

namespace Options

/-- Every declaration of a sheet that is not excluded is judged among siblings as they stand then.
A value that this writes differs from the one there was, and at the end exactly one of the siblings
declares the property with it. -/
theorem written_once (o : Options) (s : Sheet) (hex : o.excludes s.path = false) (path : List Nat)
    (sc : Scope) (hsc : s.scope? path = some sc) (before : List Node) (d : Declaration)
    (rest : List Node) (hnodes : sc.nodes = before ++ .declaration d :: rest) :
    let done := Run.passed o sc.selector [] before (.declaration d :: rest)
    let edit := o.declarationEdit d sc.selector (done ++ .declaration d :: rest)
    ∃ nodes after, (o.process s).sheet.scope? path = some { sc with nodes := nodes } ∧
      nodes = done ++ (edit.map (·.apply d)).getD [.declaration d] ++ after ∧
      ∀ e, edit = some e →
        e.value ≠ d.value ∧ (values d.property nodes).count e.value = 1 := by
  intro done edit
  set now := (Run.declaration o sc.selector (done ++ .declaration d :: rest) d).1 with hnow
  set after := (Run.nodes o sc.selector (done ++ now) rest).1 with hafter
  have hrun : (sc.run o).nodes = done ++ now ++ after := by
    simp only [Scope.run, hnodes]
    exact Run.nodes_at_declaration before d rest
  refine ⟨(sc.run o).nodes, after, by rw [scope?_process hex, hsc]; rfl, ?_, ?_⟩
  · rw [hrun, hnow, Run.declaration_fst]
  · intro e he
    have happly : now = e.apply d := by
      rw [hnow, Run.declaration_fst]
      exact congrArg (fun edit : Option Edit => (edit.map (·.apply d)).getD [.declaration d]) he
    rw [hrun, hafter, happly]
    exact Run.count_written he

/-- Of two equal declarations the first is overwritten, and the second one stays. -/
theorem written_once_sevens :
    let d : Declaration := ⟨['b'], "1px".toList, false, [], [':'], [], []⟩
    let sheet : Sheet := .parse "a{b:1px;b:1px}".toList none
    sevens.excludes sheet.path = false ∧
      sheet.scope? [0] = some ⟨[.declaration d, .declaration d], some ['a'], some ['a']⟩ ∧
      ∃ nodes, (sevens.process sheet).sheet.scope? [0] = some ⟨nodes, some ['a'], some ['a']⟩ ∧
        (values ['b'] nodes).count "7;".toList = 1 := by
  intro d sheet
  have hsc : sheet.scope? [0] =
      some ⟨[.declaration d, .declaration d], some ['a'], some ['a']⟩ := by cbv
  have hedit : sevens.declarationEdit d (some ['a']) [.declaration d, .declaration d] =
      some (.replace "7;".toList) := by
    rw [declarationEdit, judge, convert_sevens_one]
    rfl
  obtain ⟨nodes, after, hnodes, -, hwritten⟩ :=
    sevens.written_once sheet rfl [0] _ hsc [] d [.declaration d] rfl
  exact ⟨rfl, hsc, nodes, hnodes, (hwritten _ hedit).2⟩

/-- In every list of siblings of a sheet that is not excluded, each declaration that no blacklist
keeps has its converted value declared at the end. -/
theorem converted_declared (o : Options)
    (hidem : o.replace = true → ∀ t, o.convert (o.convert t) = o.convert t) (s : Sheet)
    (hex : o.excludes s.path = false) (path : List Nat) (sc : Scope)
    (hsc : s.scope? path = some sc) (d : Declaration) (hd : .declaration d ∈ sc.nodes)
    (hproperty : o.skipsProperty d.property = false)
    (hselector : o.skipsSelector sc.selector = false) :
    ∃ nodes, (o.process s).sheet.scope? path = some { sc with nodes := nodes } ∧
      o.convert d.value ∈ values d.property nodes := by
  refine ⟨(sc.run o).nodes, by rw [scope?_process hex, hsc]; rfl, ?_⟩
  obtain ⟨before, rest, hnodes⟩ := List.append_of_mem hd
  simp only [Scope.run, hnodes]
  rw [Run.nodes_at_declaration, ← isDeclared_iff_mem]
  exact Run.isDeclared_rest (fun hr => hidem hr d.value)
    (Run.isDeclared_convert hproperty hselector _ rest)

theorem converted_declared_sevens :
    (sevens.replace = true → ∀ t, sevens.convert (sevens.convert t) = sevens.convert t) ∧
      let d : Declaration := ⟨['b'], "1px".toList, false, [], [':'], [], []⟩
      let sheet : Sheet := .parse "a{b:1px;b:1px}".toList none
      sheet.scope? [0] = some ⟨[.declaration d, .declaration d], some ['a'], some ['a']⟩ ∧
        ∃ nodes, (sevens.process sheet).sheet.scope? [0] = some ⟨nodes, some ['a'], some ['a']⟩ ∧
          "7;".toList ∈ values ['b'] nodes := by
  refine ⟨fun _ => convert_sevens, ?_⟩
  intro d sheet
  have hsc : sheet.scope? [0] =
      some ⟨[.declaration d, .declaration d], some ['a'], some ['a']⟩ := by cbv
  obtain ⟨nodes, hnodes, hmem⟩ := sevens.converted_declared (fun _ => convert_sevens) sheet rfl [0]
    _ hsc d (by simp) rfl (by decide)
  rw [convert_sevens_one] at hmem
  exact ⟨hsc, nodes, hnodes, hmem⟩

end Options

end Relength
