import Mathlib.Tactic.Set
import Relength.Run

/-!
# What a run changes, and what it counts

`Revised` says what a run may make of a list of siblings: a declaration keeps everything but its
value, or is followed by a copy that differs in its value; the params of a media rule may change;
all else stays, at every depth. The counts of a run are compared with the trees alone:
`valuesChanged` and `paramsChanged` pair the declarations and the at-rules of the two trees in
document order.

* `Options.value_ne_of_edit`: an edit is never a no-op, as a declaration is among its own siblings;
* `Run.revised_nodes`: what a run makes of the nodes of a list;
* `Options.process_revised`: the whole run, with its counts.
-/

namespace Relength

def Head.atRules : Head → List AtRule
  | .style _ => []
  | .atRule rule => [rule]

namespace Node

/-- The declarations of a list of trees at any depth, in document order. -/
def allDeclarations : List Node → List Declaration
  | [] => []
  | .declaration d :: rest => d :: allDeclarations rest
  | .block _ _ children :: rest => allDeclarations children ++ allDeclarations rest
  | .statement .. :: rest => allDeclarations rest
  | .comment .. :: rest => allDeclarations rest
  | .other .. :: rest => allDeclarations rest

/-- The at-rules of a list of trees at any depth, in document order. -/
def allAtRules : List Node → List AtRule
  | [] => []
  | .block head _ children :: rest => head.atRules ++ allAtRules children ++ allAtRules rest
  | .statement rule _ :: rest => rule :: allAtRules rest
  | .declaration _ :: rest => allAtRules rest
  | .comment .. :: rest => allAtRules rest
  | .other .. :: rest => allAtRules rest

/-- The number of declarations whose value differs between two trees of one shape. -/
def valuesChanged (before after : List Node) : Nat :=
  ((allDeclarations before).zip (allDeclarations after)).countP fun p => p.1.value != p.2.value

/-- The number of at-rules whose params differ between two trees with the same at-rules. -/
def paramsChanged (before after : List Node) : Nat :=
  ((allAtRules before).zip (allAtRules after)).countP fun p => p.1.params != p.2.params

end Node

/-- An at-rule stays, or `media` is set and it is a media rule with other params. -/
inductive AtRule.Revised (media : Bool) (rule : AtRule) : AtRule → Prop where
  | kept : Revised media rule rule
  | params (params : Text) (hmedia : media = true)
      (hname : Text.eqIgnoringCase rule.name "media".toList = true) (hne : params ≠ rule.params) :
      Revised media rule { rule with params := params }

/-- A selector stays; an at-rule may be revised. -/
inductive Head.Revised (media : Bool) : Head → Head → Prop where
  | style (selector : Text) : Revised media (.style selector) (.style selector)
  | atRule {rule rule' : AtRule} (h : rule.Revised media rule') :
    Revised media (.atRule rule) (.atRule rule')

/-- What a run may make of a list of siblings. With `replace` values change in place; without, a
copy with another value may follow a declaration. -/
inductive Revised (replace media : Bool) : List Node → List Node → Prop where
  | nil : Revised replace media [] []
  | kept (d : Declaration) {rest rest' : List Node} (h : Revised replace media rest rest') :
      Revised replace media (.declaration d :: rest) (.declaration d :: rest')
  | replaced (d : Declaration) (value : Text) (hreplace : replace = true) (hne : value ≠ d.value)
      {rest rest' : List Node} (h : Revised replace media rest rest') :
      Revised replace media (.declaration d :: rest) (.declaration (d.withValue value) :: rest')
  | copied (d : Declaration) (value : Text) (hreplace : replace = false) (hne : value ≠ d.value)
      {rest rest' : List Node} (h : Revised replace media rest rest') :
      Revised replace media (.declaration d :: rest)
        (.declaration d :: .declaration (d.withValue value) :: rest')
  | block {head head' : Head} (spacing : Spacing) {children children' rest rest' : List Node}
      (hhead : head.Revised media head') (hchildren : Revised replace media children children')
      (h : Revised replace media rest rest') :
      Revised replace media (.block head spacing children :: rest)
        (.block head' spacing children' :: rest')
  | statement {rule rule' : AtRule} (spacing : Spacing) {rest rest' : List Node}
      (hrule : rule.Revised media rule') (h : Revised replace media rest rest') :
      Revised replace media (.statement rule spacing :: rest) (.statement rule' spacing :: rest')
  | comment (before text : Text) {rest rest' : List Node} (h : Revised replace media rest rest') :
      Revised replace media (.comment before text :: rest) (.comment before text :: rest')
  | other (before text : Text) (terminated : Bool) {rest rest' : List Node}
      (h : Revised replace media rest rest') :
      Revised replace media (.other before text terminated :: rest)
        (.other before text terminated :: rest')

/-! ## Counting events -/

namespace Summary

/-- A run that was not excluded, with these counts. -/
def counts (replaced inserted mediaQueries : Nat) : Summary :=
  ⟨false, replaced, inserted, mediaQueries⟩

theorem ofEvents_append {a b : List Event} {r i m u j n : Nat} (ha : ofEvents a = counts r i m)
    (hb : ofEvents b = counts u j n) : ofEvents (a ++ b) = counts (r + u) (i + j) (m + n) := by
  simp only [ofEvents, counts, Summary.mk.injEq, List.any_append, List.countP_append] at *
  obtain ⟨ha₁, rfl, rfl, rfl⟩ := ha
  obtain ⟨hb₁, rfl, rfl, rfl⟩ := hb
  exact ⟨by rw [ha₁, hb₁]; rfl, rfl, rfl, rfl⟩

/-- Events that are of interest only for a closer look do not count. -/
theorem ofEvents_minor {events : List Event} (h : ∀ e ∈ events, e.isMajor = false) :
    ofEvents events = counts 0 0 0 := by
  simp only [ofEvents, counts, Summary.mk.injEq, List.any_eq_false, List.countP_eq_zero]
  refine ⟨?_, ?_, ?_, ?_⟩
  all_goals
    intro e he
    have := h e he
    cases e <;> simp_all [Event.isMajor]

end Summary

theorem Conversion.events_minor (c : Conversion) (s : Text) :
    ∀ e ∈ c.events s, e.isMajor = false := by
  intro e he
  obtain ⟨number, -, hn⟩ := List.mem_filterMap.mp he
  unfold Conversion.event? at hn
  split at hn <;> cases hn <;> rfl

namespace Options

theorem verdictEvents_minor (o : Options) (d : Declaration) (selector : Option Text) (v : Verdict) :
    ∀ e ∈ o.verdictEvents d selector v, e.isMajor = false := by
  have hc := o.conversion.events_minor d.value
  intro e he
  cases v with
  | noLength => simp [verdictEvents] at he
  | skippedProperty => simp only [verdictEvents, List.mem_singleton] at he; subst he; rfl
  | skippedSelector => simp only [verdictEvents, List.mem_singleton] at he; subst he; rfl
  | alreadyDeclared value =>
    simp only [verdictEvents, List.mem_append, List.mem_singleton] at he
    rcases he with he | rfl
    · exact hc e he
    · rfl
  | edit _ => exact hc e he

theorem paramsEvents_minor (o : Options) (rule : AtRule) :
    ∀ e ∈ o.paramsEvents rule, e.isMajor = false := by
  intro e he
  unfold paramsEvents at he
  split at he
  · exact o.conversion.events_minor rule.params e he
  · simp at he

/-- The edit of a declaration, with the value that it writes. -/
theorem edit_of_judge {o : Options} {d : Declaration} {selector : Option Text}
    {siblings : List Node} {e : Edit} (h : (o.judge d selector siblings).edit? = some e) :
    isDeclared siblings d.property (o.convert d.value) = false ∧
      e = if o.replace then .replace (o.convert d.value) else .insertAfter (o.convert d.value) := by
  unfold judge at h
  split at h; · cases h
  split at h; · cases h
  split at h; · cases h
  dsimp only at h
  split at h; · cases h
  next hd => exact ⟨by simpa using hd, (Option.some.inj h).symm⟩

end Options

theorem isDeclared_of_mem {nodes : List Node} {d : Declaration} (h : Node.declaration d ∈ nodes) :
    isDeclared nodes d.property d.value = true := by
  simp only [isDeclared, declarations, List.any_eq_true, List.mem_filterMap]
  exact ⟨d, ⟨_, h, rfl⟩, by simp⟩

/-- An edit never writes the value that is there: a declaration is among its own siblings. -/
theorem Options.value_ne_of_edit {o : Options} {d : Declaration} {selector : Option Text}
    {siblings : List Node} {e : Edit} (hd : Node.declaration d ∈ siblings)
    (h : (o.judge d selector siblings).edit? = some e) :
    o.convert d.value ≠ d.value := by
  intro he
  have hn := (edit_of_judge h).1
  rw [he, isDeclared_of_mem hd] at hn
  cases hn

/-! ## The trees and the counts of a run -/

namespace Revised

variable {replace media : Bool} {before after : List Node}

/-- The at-rules of the two trees are in step. -/
theorem length_allAtRules (h : Revised replace media before after) :
    (Node.allAtRules before).length = (Node.allAtRules after).length := by
  induction h with
  | nil => rfl
  | kept d h ih => simpa only [Node.allAtRules] using ih
  | replaced d value hreplace hne h ih => simpa only [Node.allAtRules] using ih
  | copied d value hreplace hne h ih => simpa only [Node.allAtRules] using ih
  | block spacing hhead hchildren h ihc ih =>
    cases hhead <;> simp [Node.allAtRules, Head.atRules, ihc, ih]
  | statement spacing hrule h ih => simpa [Node.allAtRules] using ih
  | comment before text h ih => simpa only [Node.allAtRules] using ih
  | other before text terminated h ih => simpa only [Node.allAtRules] using ih

/-- Without copies the declarations of the two trees are in step. -/
theorem length_allDeclarations (hr : replace = true) (h : Revised replace media before after) :
    (Node.allDeclarations before).length = (Node.allDeclarations after).length := by
  induction h with
  | nil => rfl
  | kept d h ih => simp [Node.allDeclarations, ih]
  | replaced d value hreplace hne h ih => simp [Node.allDeclarations, ih]
  | copied d value hreplace hne h ih => rw [hr] at hreplace; cases hreplace
  | block spacing hhead hchildren h ihc ih => simp [Node.allDeclarations, ihc, ih]
  | statement spacing hrule h ih => simpa only [Node.allDeclarations] using ih
  | comment before text h ih => simpa only [Node.allDeclarations] using ih
  | other before text terminated h ih => simpa only [Node.allDeclarations] using ih

end Revised

namespace Node

theorem paramsChanged_block {replace media : Bool} {head head' : Head} {spacing : Spacing}
    {children children' rest rest' : List Node} (hhead : head.Revised media head')
    (hchildren : Revised replace media children children') :
    paramsChanged (.block head spacing children :: rest) (.block head' spacing children' :: rest') =
      (head.atRules.zip head'.atRules).countP (fun p => p.1.params != p.2.params) +
        paramsChanged children children' + paramsChanged rest rest' := by
  have hl : head.atRules.length = head'.atRules.length := by cases hhead <;> rfl
  have hc := hchildren.length_allAtRules
  simp only [paramsChanged, allAtRules]
  rw [List.zip_append (by simp [hl, hc]), List.zip_append hl, List.countP_append,
    List.countP_append]

theorem valuesChanged_block {media : Bool} {head head' : Head} {spacing : Spacing}
    {children children' rest rest' : List Node}
    (hchildren : Revised true media children children') :
    valuesChanged (.block head spacing children :: rest) (.block head' spacing children' :: rest') =
      valuesChanged children children' + valuesChanged rest rest' := by
  simp only [valuesChanged, allDeclarations]
  rw [List.zip_append (hchildren.length_allDeclarations rfl), List.countP_append]

end Node

namespace Run

theorem atRule_revised (o : Options) (rule : AtRule) :
    rule.Revised o.mediaQuery (atRule o rule).1 ∧
      Summary.ofEvents (atRule o rule).2 =
        .counts 0 0 (if rule.params != (atRule o rule).1.params then 1 else 0) := by
  have hminor := Summary.ofEvents_minor (o.paramsEvents_minor rule)
  unfold atRule
  split
  · next params hp =>
    unfold Options.mediaParams? Options.looksAtParams at hp
    split at hp; · next hlook =>
      simp only [Bool.and_eq_true] at hlook
      dsimp only at hp
      split at hp; · cases hp
      next hne =>
        cases hp
        refine ⟨.params _ hlook.1.1 hlook.1.2 hne, ?_⟩
        have hchanged : (rule.params != o.convert rule.params) = true := by simpa using Ne.symm hne
        simp only [hchanged, if_true]
        exact Summary.ofEvents_append hminor (u := 0) (j := 0) (n := 1) rfl
    · cases hp
  · simpa using ⟨.kept, hminor⟩

theorem head_revised (o : Options) (h : Head) :
    h.Revised o.mediaQuery (head o h).1 ∧
      Summary.ofEvents (head o h).2 =
        .counts 0 0
          ((h.atRules.zip (head o h).1.atRules).countP fun p => p.1.params != p.2.params) := by
  cases h with
  | style selector => exact ⟨.style selector, rfl⟩
  | atRule rule =>
    obtain ⟨hr, hc⟩ := atRule_revised o rule
    refine ⟨.atRule hr, ?_⟩
    simpa [head, Head.atRules, List.countP_cons] using hc

/-- What events count goes with two trees: the values that differ if they are replaced, some copies
by which the second tree is longer, and the params that differ. -/
def Counted (replace : Bool) (before after : List Node) (events : List Event) : Prop :=
  ∃ copies, Summary.ofEvents events =
      .counts (if replace then Node.valuesChanged before after else 0) copies
        (Node.paramsChanged before after) ∧
    (Node.allDeclarations after).length = (Node.allDeclarations before).length + copies ∧
    (replace = true → copies = 0)

theorem declaration_revised (o : Options) (selector : Option Text) (done : List Node)
    (d : Declaration) {rest rest' : List Node} {events : List Event}
    (h : Revised o.replace o.mediaQuery rest rest') (hc : Counted o.replace rest rest' events) :
    let now := declaration o selector (done ++ .declaration d :: rest) d
    Revised o.replace o.mediaQuery (.declaration d :: rest) (now.1 ++ rest') ∧
      Counted o.replace (.declaration d :: rest) (now.1 ++ rest') (now.2 ++ events) := by
  obtain ⟨copies, hsum, hlen, hcopies⟩ := hc
  set siblings := done ++ .declaration d :: rest with hsiblings
  have hmem : Node.declaration d ∈ siblings := by simp [hsiblings]
  have hminor :=
    Summary.ofEvents_minor (o.verdictEvents_minor d selector (o.judge d selector siblings))
  unfold declaration
  dsimp only
  split
  · next e he =>
    have hne := Options.value_ne_of_edit hmem he
    have hne' : (d.value != o.convert d.value) = true := by simpa using Ne.symm hne
    obtain ⟨-, rfl⟩ := Options.edit_of_judge he
    by_cases hr : o.replace = true
    · have hevent :
          Summary.ofEvents [(Edit.replace (o.convert d.value)).event d] = .counts 1 0 0 := rfl
      simp only [hr, if_true] at hsum hcopies ⊢
      refine ⟨.replaced d _ rfl hne (hr ▸ h), copies, ?_, ?_, fun _ => hcopies trivial⟩
      · rw [Summary.ofEvents_append (Summary.ofEvents_append hminor hevent) hsum]
        simp only [Edit.apply, Node.valuesChanged, Node.paramsChanged, Node.allDeclarations,
          Node.allAtRules, List.cons_append, List.nil_append, List.zip_cons_cons, List.countP_cons,
          Declaration.withValue, hne', if_true, Summary.counts, Summary.mk.injEq, Nat.zero_add,
          and_true, true_and]
        omega
      · simp only [Edit.apply, List.cons_append, List.nil_append, Node.allDeclarations,
          List.length_cons]
        omega
    · have hr : o.replace = false := by simpa using hr
      have hevent :
          Summary.ofEvents [(Edit.insertAfter (o.convert d.value)).event d] = .counts 0 1 0 := rfl
      simp only [hr, Bool.false_eq_true, if_false] at hsum ⊢
      refine ⟨.copied d _ rfl hne (hr ▸ h), copies + 1, ?_, ?_, fun h => by cases h⟩
      · rw [Summary.ofEvents_append (Summary.ofEvents_append hminor hevent) hsum]
        simp only [Edit.apply, Node.paramsChanged, Node.allAtRules, List.cons_append,
          List.nil_append, Summary.counts, Summary.mk.injEq, Bool.false_eq_true, if_false,
          Nat.zero_add, and_true, true_and]
        omega
      · simp only [Edit.apply, List.cons_append, List.nil_append, Node.allDeclarations,
          List.length_cons]
        omega
  · refine ⟨.kept d h, copies, ?_, ?_, hcopies⟩
    · rw [Summary.ofEvents_append hminor hsum]
      simp [Node.valuesChanged, Node.paramsChanged, Node.allDeclarations, Node.allAtRules]
    · simp only [List.cons_append, List.nil_append, Node.allDeclarations, List.length_cons]
      omega

theorem revised_nodes (o : Options) (selector : Option Text) (done rest : List Node) :
    Revised o.replace o.mediaQuery rest (nodes o selector done rest).1 ∧
      Counted o.replace rest (nodes o selector done rest).1 (nodes o selector done rest).2 := by
  fun_induction nodes o selector done rest with
  | case1 =>
    refine ⟨.nil, 0, ?_, rfl, fun _ => rfl⟩
    cases o.replace <;> simp [Summary.ofEvents, Summary.counts, Node.valuesChanged,
      Node.paramsChanged, Node.allDeclarations, Node.allAtRules]
  | case2 selector done d rest now next ih => exact declaration_revised o selector done d ih.1 ih.2
  | case3 selector done h spacing children rest h' inner node next ihc ih =>
    obtain ⟨hhead, hheadc⟩ := head_revised o h
    change Revised _ _ _ inner.1 ∧ Counted _ _ inner.1 inner.2 at ihc
    change Revised _ _ _ next.1 ∧ Counted _ _ next.1 next.2 at ih
    obtain ⟨hinner, copies, hsum, hlen, hcopies⟩ := ihc
    obtain ⟨hrest, copies', hsum', hlen', hcopies'⟩ := ih
    refine ⟨.block spacing hhead hinner hrest, copies + copies', ?_, ?_, fun hr => ?_⟩
    · rw [Summary.ofEvents_append (Summary.ofEvents_append hheadc hsum) hsum',
        Node.paramsChanged_block hhead hinner]
      by_cases hr : o.replace = true
      · rw [if_pos hr, if_pos hr, if_pos hr, Node.valuesChanged_block (hr ▸ hinner)]
        simp [Summary.counts]
      · simp [hr, Summary.counts]
    · simp only [node, Node.allDeclarations, List.length_append]
      omega
    · rw [hcopies hr, hcopies' hr]
  | case4 selector done rule spacing rest rule' node next ih =>
    obtain ⟨hrule, hrulec⟩ := atRule_revised o rule
    change Revised _ _ _ next.1 ∧ Counted _ _ next.1 next.2 at ih
    obtain ⟨hrest, copies, hsum, hlen, hcopies⟩ := ih
    refine ⟨.statement spacing hrule hrest, copies, ?_, ?_, hcopies⟩
    · rw [Summary.ofEvents_append hrulec hsum]
      simp only [node, Node.valuesChanged, Node.paramsChanged, Node.allDeclarations,
        Node.allAtRules, List.zip_cons_cons, List.countP_cons, Summary.counts, Summary.mk.injEq,
        Nat.zero_add, true_and]
      exact Nat.add_comm _ _
    · simpa only [node, Node.allDeclarations] using hlen
  | case5 selector done before text rest next ih =>
    obtain ⟨hrest, copies, hsum, hlen, hcopies⟩ := ih
    refine ⟨.comment before text hrest, copies, ?_, ?_, hcopies⟩
    · simpa only [Node.valuesChanged, Node.paramsChanged, Node.allDeclarations,
        Node.allAtRules] using hsum
    · simpa only [Node.allDeclarations] using hlen
  | case6 selector done before text terminated rest next ih =>
    obtain ⟨hrest, copies, hsum, hlen, hcopies⟩ := ih
    refine ⟨.other before text terminated hrest, copies, ?_, ?_, hcopies⟩
    · simpa only [Node.valuesChanged, Node.paramsChanged, Node.allDeclarations,
        Node.allAtRules] using hsum
    · simpa only [Node.allDeclarations] using hlen

end Run

/-- A run on a sheet that is left alone changes and counts nothing. Any other revises the nodes of
the sheet, and its counts are exact: of values that differ where they are replaced, of copies where
these are inserted, and of params that differ. -/
theorem Options.process_revised (o : Options) (s : Sheet) :
    let run := o.process s
    if o.excludes s.path then run.sheet = s ∧ run.summary = ⟨true, 0, 0, 0⟩
    else
      run.sheet = { s with nodes := run.sheet.nodes } ∧
        Revised o.replace o.mediaQuery s.nodes run.sheet.nodes ∧
        run.summary.excluded = false ∧
        run.summary.mediaQueries = Node.paramsChanged s.nodes run.sheet.nodes ∧
        if o.replace then
          run.summary.replaced = Node.valuesChanged s.nodes run.sheet.nodes ∧
            run.summary.inserted = 0
        else
          run.summary.replaced = 0 ∧
            (Node.allDeclarations run.sheet.nodes).length =
              (Node.allDeclarations s.nodes).length + run.summary.inserted := by
  unfold process
  split
  · next hex =>
    refine ⟨rfl, ?_⟩
    unfold excludes at hex
    split at hex
    · next p _ hp => simp [Run.summary, hp, Summary.ofEvents]
    · cases hex
  · obtain ⟨hrev, copies, hsum, hlen, hcopies⟩ := Run.revised_nodes o none [] s.nodes
    have hrun :=
      Summary.ofEvents_append hsum (b := [.finished (.ofEvents (Run.nodes o none [] s.nodes).2)])
      (u := 0) (j := 0) (n := 0) rfl
    simp only [Nat.add_zero] at hrun
    refine ⟨rfl, hrev, by rw [Run.summary, hrun]; rfl, by rw [Run.summary, hrun]; rfl, ?_⟩
    rw [Run.summary, hrun]
    by_cases hr : o.replace = true
    · rw [if_pos hr, if_pos hr]
      exact ⟨rfl, hcopies hr⟩
    · rw [if_neg hr, if_neg hr]
      exact ⟨rfl, hlen⟩

end Relength
