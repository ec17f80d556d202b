import Relength.Proofs.Revision
import Relength.Proofs.SemicolonUnit

/-!
# Running twice

A list of siblings is `Settled` if no declaration in it and no media rule below it would be edited
as things stand. A run leaves such a list alone (`Run.nodes_settled`), and whatever a run makes of a
list is settled (`Run.settled_nodes`), provided that conversion is idempotent.

The second fact rests on `Run.isDeclared_nodes`. What kept a declaration from being edited is a
sibling with the converted value; that sibling may stand further on and is still to be judged. Its
value is a fixed point of the conversion, so it is declared already, by itself, and stays as it is.

* `Options.process_process`: a second run changes nothing and counts nothing.
-/

namespace Relength

/-- No at-rule in front of a block would get other params. -/
def Head.Settled (o : Options) (h : Head) : Prop := ∀ rule ∈ h.atRules, o.mediaParams? rule = none

/-- No declaration among these nodes would be edited under this selector and among these siblings,
and nothing below them. -/
def Settled (o : Options) (selector : Option Text) (siblings : List Node) : List Node → Prop
  | [] => True
  | .declaration d :: rest =>
    (o.judge d selector siblings).edit? = none ∧ Settled o selector siblings rest
  | .block head _ children :: rest =>
    head.Settled o ∧ Settled o head.selector? children children ∧ Settled o selector siblings rest
  | .statement rule _ :: rest => o.mediaParams? rule = none ∧ Settled o selector siblings rest
  | .comment .. :: rest => Settled o selector siblings rest
  | .other .. :: rest => Settled o selector siblings rest

theorem isDeclared_append (a b : List Node) (property value : Text) :
    isDeclared (a ++ b) property value =
      (isDeclared a property value || isDeclared b property value) := by
  simp [isDeclared, declarations]

theorem isDeclared_cons (n : Node) (b : List Node) (property value : Text) :
    isDeclared (n :: b) property value =
      (isDeclared [n] property value || isDeclared b property value) :=
  isDeclared_append [n] b property value

namespace Options

/-- A declaration is not edited if it is passed over, or if some sibling has the converted value. -/
theorem judge_eq_none_iff (o : Options) (d : Declaration) (selector : Option Text)
    (siblings : List Node) :
    (o.judge d selector siblings).edit? = none ↔
      hasPxText d.value = false ∨ o.skipsProperty d.property = true ∨
        o.skipsSelector selector = true ∨
        isDeclared siblings d.property (o.convert d.value) = true := by
  unfold judge
  cases hasPxText d.value with
  | false => simp [Verdict.edit?]
  | true =>
    cases o.skipsProperty d.property with
    | true => simp [Verdict.edit?]
    | false =>
      cases o.skipsSelector selector with
      | true => simp [Verdict.edit?]
      | false =>
        cases hd : isDeclared siblings d.property (o.convert d.value) <;> simp [hd, Verdict.edit?]

theorem mediaParams?_of_fixed {o : Options} {rule : AtRule}
    (h : o.convert rule.params = rule.params) :
    o.mediaParams? rule = none := by
  unfold mediaParams?
  split
  · simp [h]
  · rfl

end Options

/-! ## A settled list stays -/

namespace Run

theorem atRule_settled {o : Options} {rule : AtRule} (h : o.mediaParams? rule = none) :
    (atRule o rule).1 = rule ∧ Summary.ofEvents (atRule o rule).2 = .counts 0 0 0 := by
  unfold atRule
  rw [h]
  exact ⟨rfl, Summary.ofEvents_minor (o.paramsEvents_minor rule)⟩

theorem head_settled {o : Options} {h : Head} (hs : h.Settled o) :
    (head o h).1 = h ∧ Summary.ofEvents (head o h).2 = .counts 0 0 0 := by
  cases h with
  | style selector => exact ⟨rfl, rfl⟩
  | atRule rule =>
    obtain ⟨he, hc⟩ := atRule_settled (hs rule (List.mem_singleton_self rule))
    exact ⟨by rw [head, he], hc⟩

/-- A run over settled nodes, of which the `done` ones are passed, gives them back and counts
nothing. -/
theorem nodes_settled (o : Options) (selector : Option Text) (done rest : List Node)
    (h : Settled o selector (done ++ rest) rest) :
    (nodes o selector done rest).1 = rest ∧
      Summary.ofEvents (nodes o selector done rest).2 = .counts 0 0 0 := by
  fun_induction nodes o selector done rest with
  | case1 => exact ⟨rfl, rfl⟩
  | case2 selector done d rest now next ih =>
    rw [Settled] at h
    obtain ⟨hd, hrest⟩ := h
    have hnow : now = ([.declaration d],
        o.verdictEvents d selector (o.judge d selector (done ++ .declaration d :: rest))) := by
      simp only [now, declaration]
      rw [hd]
    have hc := Summary.ofEvents_minor
      (o.verdictEvents_minor d selector (o.judge d selector (done ++ .declaration d :: rest)))
    rw [hnow] at ih
    obtain ⟨he, hc'⟩ := ih (by simpa using hrest)
    simp only [next, hnow]
    rw [he]
    exact ⟨rfl, Summary.ofEvents_append hc hc'⟩
  | case3 selector done head' spacing children rest h' inner node next ihc ih =>
    rw [Settled] at h
    obtain ⟨hhead, hchildren, hrest⟩ := h
    obtain ⟨hh, hhc⟩ := head_settled hhead
    obtain ⟨hi, hic⟩ := ihc (by simpa using hchildren)
    have hnode : node = .block head' spacing children := by
      simp only [node, h', inner]
      rw [hh, hi]
    rw [hnode] at ih
    obtain ⟨hn, hnc⟩ := ih (by simpa using hrest)
    simp only [next, hnode]
    rw [hn]
    exact ⟨rfl, Summary.ofEvents_append (Summary.ofEvents_append hhc hic) hnc⟩
  | case4 selector done rule spacing rest rule' node next ih =>
    rw [Settled] at h
    obtain ⟨hrule, hrest⟩ := h
    obtain ⟨hr, hrc⟩ := atRule_settled hrule
    have hnode : node = .statement rule spacing := by
      simp only [node, rule']
      rw [hr]
    rw [hnode] at ih
    obtain ⟨hn, hnc⟩ := ih (by simpa using hrest)
    simp only [next, hnode]
    rw [hn]
    exact ⟨rfl, Summary.ofEvents_append hrc hnc⟩
  | case5 selector done before text rest next ih =>
    obtain ⟨hn, hnc⟩ := ih (by simpa [Settled] using h)
    exact ⟨congrArg _ hn, hnc⟩
  | case6 selector done before text terminated rest next ih =>
    obtain ⟨hn, hnc⟩ := ih (by simpa [Settled] using h)
    exact ⟨congrArg _ hn, hnc⟩

/-! ## What a run makes of a list is settled -/

variable {o : Options} (hidem : ∀ t, o.convert (o.convert t) = o.convert t)

/-- A declaration whose value the conversion leaves alone is not edited: it is declared by
itself. -/
theorem declaration_fixed {selector : Option Text} {siblings : List Node} {d : Declaration}
    (hd : Node.declaration d ∈ siblings) (h : o.convert d.value = d.value) :
    (declaration o selector siblings d).1 = [.declaration d] := by
  have hnone : (o.judge d selector siblings).edit? = none :=
    (o.judge_eq_none_iff d selector siblings).mpr
      (.inr (.inr (.inr (by rw [h]; exact isDeclared_of_mem hd))))
  simp only [declaration]
  rw [hnone]

/-- A value that the conversion leaves alone stays declared while its declaration is judged. -/
theorem isDeclared_declaration {selector : Option Text} {done rest : List Node} {d : Declaration}
    {property value : Text} (hv : o.convert value = value)
    (h : isDeclared (done ++ .declaration d :: rest) property value = true) :
    isDeclared (done ++ (declaration o selector (done ++ .declaration d :: rest) d).1 ++ rest)
      property value =
      true := by
  rw [isDeclared_append, isDeclared_cons] at h
  rw [isDeclared_append, isDeclared_append]
  simp only [Bool.or_eq_true] at h ⊢
  rcases h with h | h | h
  · exact .inl (.inl h)
  · have hd : d.property = property ∧ d.value = value := by
      simpa [isDeclared, declarations, Node.declaration?] using h
    rw [declaration_fixed (by simp) (by rw [hd.2, hv])]
    exact .inl (.inr h)
  · exact .inr h

/-- A value that the conversion leaves alone stays declared through the rest of a run. -/
theorem isDeclared_nodes (selector : Option Text) (done rest : List Node) {property value : Text}
    (hv : o.convert value = value) (h : isDeclared (done ++ rest) property value = true) :
    isDeclared (done ++ (nodes o selector done rest).1) property value = true := by
  fun_induction nodes o selector done rest with
  | case1 => exact h
  | case2 selector done d rest now next ih =>
    rw [← List.append_assoc]
    exact ih (isDeclared_declaration hv h)
  | case3 selector done head spacing children rest h' inner node next ihc ih =>
    have hnode : isDeclared (done ++ [node] ++ rest) property value = true := by
      simpa [isDeclared, declarations, Node.declaration?, node] using h
    simpa using ih hnode
  | case4 selector done rule spacing rest rule' node next ih =>
    have hnode : isDeclared (done ++ [node] ++ rest) property value = true := by
      simpa [isDeclared, declarations, Node.declaration?, node] using h
    simpa using ih hnode
  | case5 selector done before text rest next ih => simpa using ih (by simpa using h)
  | case6 selector done before text terminated rest next ih => simpa using ih (by simpa using h)

/-- Declarations that would not be edited settle with what follows them. -/
theorem settled_append {selector : Option Text} {siblings now rest : List Node}
    (h : ∀ n ∈ now, ∃ d, n = .declaration d ∧ (o.judge d selector siblings).edit? = none)
    (hrest : Settled o selector siblings rest) : Settled o selector siblings (now ++ rest) := by
  induction now with
  | nil => exact hrest
  | cons n now ih =>
    obtain ⟨d, rfl, hd⟩ := h n (by simp)
    rw [List.cons_append, Settled]
    exact ⟨hd, ih fun n hn => h n (by simp [hn])⟩

include hidem in
/-- What becomes of one declaration is not edited again, among what becomes of the whole list. -/
theorem judge_declaration (selector : Option Text) (done rest : List Node) (d : Declaration) :
    let now := (declaration o selector (done ++ .declaration d :: rest) d).1
    let after := (nodes o selector (done ++ now) rest).1
    ∀ n ∈ now, ∃ d', n = .declaration d' ∧ (o.judge d' selector (done ++ now ++ after)).edit? =
      none := by
  intro now after n hn
  cases he : (o.judge d selector (done ++ .declaration d :: rest)).edit? with
  | none =>
    have hnow : now = [.declaration d] := by
      simp only [now, declaration]
      rw [he]
    rw [hnow, List.mem_singleton] at hn
    refine ⟨d, hn, (o.judge_eq_none_iff d selector _).mpr ?_⟩
    rcases (o.judge_eq_none_iff d selector _).mp he with h | h | h | h
    · exact .inl h
    · exact .inr (.inl h)
    · exact .inr (.inr (.inl h))
    · -- The sibling that kept `d` from being edited is still there at the end.
      refine .inr (.inr (.inr (isDeclared_nodes selector _ rest (hidem d.value) ?_)))
      simpa [hnow] using h
  | some e =>
    obtain ⟨-, rfl⟩ := Options.edit_of_judge he
    have hnow : now =
        (if o.replace then Edit.replace (o.convert d.value) else
          .insertAfter (o.convert d.value)).apply d := by
      simp only [now, declaration]
      rw [he]
    have hcopy : .declaration (d.withValue (o.convert d.value)) ∈ now := by
      rw [hnow]
      split <;> simp [Edit.apply]
    have hdeclared : isDeclared (done ++ now ++ after) d.property (o.convert d.value) = true :=
      isDeclared_of_mem (d := d.withValue (o.convert d.value)) (by simp [hcopy])
    have hcases : n = .declaration d ∨ n = .declaration (d.withValue (o.convert d.value)) := by
      rw [hnow] at hn
      split at hn <;> simp only [Edit.apply, List.mem_cons, List.not_mem_nil, or_false] at hn
      · exact .inr hn
      · exact hn
    rcases hcases with rfl | rfl
    · exact ⟨d, rfl, (o.judge_eq_none_iff _ selector _).mpr (.inr (.inr (.inr hdeclared)))⟩
    · refine ⟨_, rfl, (o.judge_eq_none_iff _ selector _).mpr (.inr (.inr (.inr ?_)))⟩
      rw [Declaration.withValue, hidem d.value]
      exact hdeclared

include hidem in
theorem mediaParams?_atRule (rule : AtRule) : o.mediaParams? (atRule o rule).1 = none := by
  unfold atRule
  split
  · next params hp =>
    refine Options.mediaParams?_of_fixed ?_
    unfold Options.mediaParams? at hp
    split at hp
    · dsimp only at hp
      split at hp <;> cases hp
      exact hidem rule.params
    · cases hp
  · next hp => exact hp

include hidem in
theorem settled_head (h : Head) : (head o h).1.Settled o := by
  cases h with
  | style selector => intro rule hrule; cases hrule
  | atRule rule =>
    intro rule' hrule
    simp only [head, Head.atRules, List.mem_singleton] at hrule
    rw [hrule]
    exact mediaParams?_atRule hidem rule

theorem selector?_head (o : Options) (h : Head) : (head o h).1.selector? = h.selector? := by
  cases h <;> rfl

include hidem in
/-- What a run makes of a list of siblings, of which the `done` ones are passed, is settled. -/
theorem settled_nodes (selector : Option Text) (done rest : List Node) :
    Settled o selector (done ++ (nodes o selector done rest).1) (nodes o selector done rest).1 := by
  fun_induction nodes o selector done rest with
  | case1 => simp [Settled]
  | case2 selector done d rest now next ih =>
    rw [← List.append_assoc]
    exact settled_append (judge_declaration hidem selector done rest d) ih
  | case3 selector done h spacing children rest h' inner node next ihc ih =>
    rw [Settled, selector?_head]
    exact ⟨settled_head hidem h, by simpa using ihc, by simpa using ih⟩
  | case4 selector done rule spacing rest rule' node next ih =>
    rw [Settled]
    exact ⟨mediaParams?_atRule hidem rule, by simpa using ih⟩
  | case5 selector done before text rest next ih =>
    rw [Settled]
    simpa using ih
  | case6 selector done before text terminated rest next ih =>
    rw [Settled]
    simpa using ih

end Run

/-- With an idempotent conversion a second run changes nothing and counts nothing. -/
theorem Options.process_process (o : Options) (hidem : ∀ t, o.convert (o.convert t) = o.convert t)
    (s : Sheet) :
    let first := o.process s
    let second := o.process first.sheet
    second.sheet = first.sheet ∧ second.summary.replaced = 0 ∧ second.summary.inserted = 0 ∧
      second.summary.mediaQueries = 0 := by
  dsimp only
  by_cases hex : o.excludes s.path = true
  · have hfirst : (o.process s).sheet = s := by rw [process, if_pos hex]
    have hrun := o.process_revised s
    rw [hfirst]
    simp only [hex, if_true] at hrun
    rw [hrun.2]
    exact ⟨hrun.1, rfl, rfl, rfl⟩
  · have hfirst : (o.process s).sheet = { s with nodes := (Run.nodes o none [] s.nodes).1 } := by
      rw [process, if_neg hex]
    obtain ⟨hnodes, hsum⟩ := Run.nodes_settled o none [] _ (Run.settled_nodes hidem none [] s.nodes)
    rw [hfirst, process, if_neg hex]
    simp only [Run.summary]
    rw [hnodes, Summary.ofEvents_append hsum (b := [.finished _]) (u := 0) (j := 0) (n := 0) rfl]
    exact ⟨rfl, rfl, rfl, rfl⟩

/-- The first run overwrites one of two equal declarations, and with that keeps the other. -/
theorem Options.process_process_sevens :
    (∀ t, sevens.convert (sevens.convert t) = sevens.convert t) ∧
      let s := Sheet.parse "a{b:1px;b:1px}".toList none
      let first := sevens.process s
      let second := sevens.process first.sheet
      first.sheet.render = "a{b:7;;b:1px}".toList ∧ first.sheet ≠ s ∧
        second.sheet = first.sheet ∧ second.summary.replaced = 0 ∧ second.summary.inserted = 0 ∧
        second.summary.mediaQueries = 0 := by
  let d : Declaration := ⟨['b'], "1px".toList, false, [], [':'], [], []⟩
  have hparse : Sheet.parse "a{b:1px;b:1px}".toList none =
      ⟨⟨[.block (.style ['a']) ⟨[], [], [], false⟩ [.declaration d, .declaration d]], [], false⟩,
        none⟩ := by cbv
  have hedit : (sevens.judge d (some ['a']) [.declaration d, .declaration d]).edit? =
      some (.replace "7;".toList) := by
    rw [judge, convert_sevens_one]
    rfl
  have hkept : (sevens.judge d (some ['a'])
      [.declaration (d.withValue "7;".toList), .declaration d]).edit? = none := by
    rw [judge, convert_sevens_one]
    rfl
  have hwritten : (sevens.process (.parse "a{b:1px;b:1px}".toList none)).sheet.render =
      "a{b:7;;b:1px}".toList := by
    rw [hparse, process, if_neg (by decide)]
    simp only [Run.nodes, Run.head, Run.declaration, Head.selector?, List.nil_append, hedit,
      Edit.apply, List.singleton_append, hkept]
    cbv
  have hbefore : (Sheet.parse "a{b:1px;b:1px}".toList none).render ≠ "a{b:7;;b:1px}".toList := by
    decide_cbv
  have hedited : (sevens.process (.parse "a{b:1px;b:1px}".toList none)).sheet ≠
      .parse "a{b:1px;b:1px}".toList none := by
    intro hsame
    rw [hsame] at hwritten
    exact hbefore hwritten
  exact ⟨convert_sevens, hwritten, hedited, process_process sevens convert_sevens _⟩

end Relength
