import Relength.Proofs.Revaluation
import Relength.Proofs.Respelling.Conversion
import Relength.Proofs.Revision

/-!
# Reading a converted sheet

A run that replaces values respells them (`Run.nodes_revalued`), so the text it writes is read back
as the tree it left, provided that no length it converts directly follows an unfinished escape.

* `Options.parse_processCss`: the converted text reads as the converted tree;
* `Options.parse_processCss_escape`: an escape with which the digits of a number go can open a url.
-/

namespace Relength

namespace Run

variable {o : Options} (hreplace : o.replace = true) (hmedia : o.mediaQuery = false)
  (hunit : ∀ c ∈ o.unit, c.isAlphanum = true)

include hmedia in
theorem atRule_of_mediaQuery (rule : AtRule) : (atRule o rule).1 = rule := by
  have hnone : o.mediaParams? rule = none := by
    simp [Options.mediaParams?, Options.looksAtParams, hmedia]
  simp only [atRule]
  rw [hnone]

include hmedia in
theorem head_of_mediaQuery (h : Head) : (head o h).1 = h := by
  cases h with
  | style selector => rfl
  | atRule rule => rw [head, atRule_of_mediaQuery hmedia]

include hreplace hunit in
/-- A declaration stays, or has its value respelled. -/
theorem declaration_revalued {selector : Option Text} {siblings : List Node} {d : Declaration}
    (hclear : ∀ property old new,
        .replaced property old new ∈ (declaration o selector siblings d).2 →
        o.conversion.Clear old) :
    ∃ w, Respelled .outside d.value w ∧ (declaration o selector siblings d).1 =
      [.declaration (d.withValue w)] := by
  simp only [declaration] at hclear ⊢
  cases he : (o.judge d selector siblings).edit? with
  | none => exact ⟨d.value, .refl .outside d.value, rfl⟩
  | some e =>
    obtain ⟨-, rfl⟩ := Options.edit_of_judge he
    rw [if_pos hreplace] at he
    simp only [he, hreplace, if_true] at hclear ⊢
    have hvalue :=
      hclear d.property d.value (o.convert d.value) (List.mem_append_right _ (by simp [Edit.event]))
    exact ⟨o.convert d.value, o.conversion.respelled_convert hunit hvalue, rfl⟩

include hreplace hmedia hunit in
/-- A run respells the values that it replaces, if no escape is in the way in them. -/
theorem nodes_revalued (selector : Option Text) (done rest : List Node)
    (hclear : ∀ property old new, .replaced property old new ∈ (nodes o selector done rest).2 →
      o.conversion.Clear old) : Revalued rest (nodes o selector done rest).1 := by
  fun_induction nodes o selector done rest with
  | case1 => exact .nil
  | case2 selector done d rest now next ih =>
    have hrest := ih fun property old new h => hclear property old new (List.mem_append_right _ h)
    have hnow := declaration_revalued hreplace hunit fun property old new h =>
      hclear property old new (List.mem_append_left _ h)
    obtain ⟨w, hw, hd⟩ := hnow
    rw [hd]
    exact .declaration hw hrest
  | case3 selector done h spacing children rest h' inner node next ihc ih =>
    have hnode : node = .block h spacing inner.1 := by
      simp only [node, h', head_of_mediaQuery hmedia]
    have hchildren := ihc fun property old new h =>
      hclear property old new (List.mem_append_left _ (List.mem_append_right _ h))
    have hrest := ih fun property old new h => hclear property old new (List.mem_append_right _ h)
    rw [hnode]
    exact .block hchildren hrest
  | case4 selector done rule spacing rest rule' node next ih =>
    have hnode : node = .statement rule spacing := by
      simp only [node, rule', atRule_of_mediaQuery hmedia]
    have hrest := ih fun property old new h => hclear property old new (List.mem_append_right _ h)
    rw [hnode]
    exact .bare rfl hrest
  | case5 selector done before text rest next ih => exact .bare rfl (ih hclear)
  | case6 selector done before text terminated rest next ih => exact .bare rfl (ih hclear)

end Run

/-! ## What a run replaces -/

namespace Run

theorem value_of_replaced_declaration {o : Options} {selector : Option Text} {siblings : List Node}
    {d : Declaration} {property old new : Text}
    (h : .replaced property old new ∈ (declaration o selector siblings d).2) :
    old = d.value := by
  have hminor :=
    o.verdictEvents_minor d selector (o.judge d selector siblings) (.replaced property old new)
  simp only [declaration] at h
  split at h
  · next e he =>
    rcases List.mem_append.mp h with h | h
    · cases hminor h
    · cases e <;> cases List.mem_singleton.mp h
      rfl
  · cases hminor h

theorem not_replaced_atRule {o : Options} {rule : AtRule} {property old new : Text} :
    .replaced property old new ∉ (atRule o rule).2 := by
  have hminor := o.paramsEvents_minor rule (.replaced property old new)
  intro h
  unfold atRule at h
  split at h
  · rcases List.mem_append.mp h with h | h
    · cases hminor h
    · cases List.mem_singleton.mp h
  · cases hminor h

/-- What a run replaces is the value of a declaration. -/
theorem value_of_replaced {o : Options} {selector : Option Text} {done rest : List Node}
    {property old new : Text} (h : .replaced property old new ∈ (nodes o selector done rest).2) :
    ∃ d ∈ Node.allDeclarations rest, d.value = old := by
  fun_induction nodes o selector done rest with
  | case1 => cases h
  | case2 selector done d rest now next ih =>
    rw [Node.allDeclarations]
    rcases List.mem_append.mp h with h | h
    · exact ⟨d, List.mem_cons_self, (value_of_replaced_declaration h).symm⟩
    · obtain ⟨d', hd', hold⟩ := ih h
      exact ⟨d', List.mem_cons_of_mem d hd', hold⟩
  | case3 selector done head' spacing children rest h' inner node next ihc ih =>
    rw [Node.allDeclarations]
    rcases List.mem_append.mp h with h | h
    · rcases List.mem_append.mp h with h | h
      · cases head' with
        | style selector => cases h
        | atRule rule => exact absurd h not_replaced_atRule
      · obtain ⟨d', hd', hold⟩ := ihc h
        exact ⟨d', List.mem_append_left _ hd', hold⟩
    · obtain ⟨d', hd', hold⟩ := ih h
      exact ⟨d', List.mem_append_right _ hd', hold⟩
  | case4 selector done rule spacing rest rule' node next ih =>
    rw [Node.allDeclarations]
    rcases List.mem_append.mp h with h | h
    · exact absurd h not_replaced_atRule
    · exact ih h
  | case5 selector done before text rest next ih =>
    rw [Node.allDeclarations]
    exact ih h
  | case6 selector done before text terminated rest next ih =>
    rw [Node.allDeclarations]
    exact ih h

end Run

/-- What a run replaces is the value of a declaration in the sheet. -/
theorem Options.value_of_replaced {o : Options} {s : Sheet} {property old new : Text}
    (h : .replaced property old new ∈ (o.process s).events) :
    ∃ d ∈ Node.allDeclarations s.nodes, d.value = old := by
  unfold process at h
  split at h
  · cases hpath : s.path <;> simp [hpath] at h
  · rcases List.mem_append.mp h with h | h
    · exact Run.value_of_replaced h
    · cases List.mem_singleton.mp h

/-- If the text of a sheet closes its blocks, a run that overwrites values, and no media params,
writes a text that reads as the tree it left, unless a length that it converts directly follows an
unfinished escape. -/
theorem Options.parse_processCss (o : Options) (css : Text) (path : Option Text)
    (hopen : Component.openBlocks (Component.ofText css) = 0) (hreplace : o.replace = true)
    (hmedia : o.mediaQuery = false) (hunit : ∀ c ∈ o.unit, c.isAlpha = true)
    (hclear : ∀ property old new,
        .replaced property old new ∈ (o.process (.parse css path)).events →
        o.conversion.Clear old) :
    Sheet.parse (o.processCss css path) path = (o.process (.parse css path)).sheet := by
  have halphanum : ∀ c ∈ o.unit, c.isAlphanum = true :=
    fun c hc => by simp [Char.isAlphanum, hunit c hc]
  rw [processCss]
  simp only [process] at hclear ⊢
  split at hclear
  · next hex =>
    rw [if_pos hex]
    exact Sheet.parse_render_revalued hopen (.refl _)
  · next hex =>
    rw [if_neg hex]
    refine Sheet.parse_render_revalued hopen
      (Run.nodes_revalued hreplace hmedia halphanum none [] _ ?_)
    intro property old new h
    exact hclear property old new (List.mem_append_left _ h)

/-! ## Rules with one declaration -/

/-- A rule with one declaration of this value. -/
def ruleText (value : Text) : Text := ['a', '{', 'b', ':'] ++ value ++ ['}']

/-- The tree of `ruleText`, for a value that stays in its declaration. -/
def ruleSheet (value : Text) : Sheet :=
  ⟨⟨[.block (.style ['a']) ⟨[], [], [], false⟩
      [.declaration ⟨['b'], value, false, [], [':'], [], []⟩]], [], false⟩, none⟩

theorem render_ruleSheet (value : Text) : (ruleSheet value).render = ruleText value := by
  simp [ruleSheet, ruleText, Sheet.render, Body.render, Node.renderList, Head.render,
    Declaration.render, Declaration.importantText, Node.terminates]

theorem allDeclarations_ruleSheet (value : Text) :
    Node.allDeclarations (ruleSheet value).nodes =
      [⟨['b'], value, false, [], [':'], [], []⟩] := by
  simp [ruleSheet, Node.allDeclarations]

namespace Options

/-- A run over the rule converts the value, and so does its text. -/
theorem processCss_ruleText {o : Options} {value : Text}
    (hparse : Sheet.parse (ruleText value) none = ruleSheet value)
    (hexclude : o.excludes none = false)
    (hedit : (o.judge ⟨['b'], value, false, [], [':'], [], []⟩ (some ['a'])
      [.declaration ⟨['b'], value, false, [], [':'], [], []⟩]).edit? =
        some (.replace (o.convert value))) :
    (o.process (.parse (ruleText value) none)).sheet = ruleSheet (o.convert value) ∧
      o.processCss (ruleText value) none = ruleText (o.convert value) := by
  have hrun : (o.process (ruleSheet value)).sheet = ruleSheet (o.convert value) := by
    rw [process, ruleSheet, if_neg (by simp [hexclude])]
    simp only [Run.nodes, Run.head, Run.declaration, Head.selector?, List.nil_append, hedit]
    rfl
  rw [processCss, hparse, hrun, render_ruleSheet]
  exact ⟨rfl, rfl⟩

/-- The length in front of a url converts. The one in the url stays, so it may follow an escape. -/
theorem parse_processCss_url :
    Component.openBlocks (Component.ofText (ruleText "1px url(\"\" \\7+2.5px)".toList)) = 0 ∧
      default.conversion.Clear "1px url(\"\" \\7+2.5px)".toList ∧
      default.processCss (ruleText "1px url(\"\" \\7+2.5px)".toList) none =
        ruleText "2rpx url(\"\" \\7+2.5px)".toList ∧
      Sheet.parse (ruleText "2rpx url(\"\" \\7+2.5px)".toList) none =
        (default.process (.parse (ruleText "1px url(\"\" \\7+2.5px)".toList) none)).sheet := by
  have hopen :
      Component.openBlocks (Component.ofText (ruleText "1px url(\"\" \\7+2.5px)".toList)) = 0 := by
    cbv
  have hclear : default.conversion.Clear "1px url(\"\" \\7+2.5px)".toList :=
    default.conversion.clear_of_located (by cbv)
  have hparse : Sheet.parse (ruleText "1px url(\"\" \\7+2.5px)".toList) none =
      ruleSheet "1px url(\"\" \\7+2.5px)".toList := by cbv
  have hconvert : default.convert "1px url(\"\" \\7+2.5px)".toList =
      "2rpx url(\"\" \\7+2.5px)".toList := by
    have hformat : default.conversion.format ['1'] = "2rpx".toList := by decide +kernel
    have hreplace (f : Text → Text) :
        replacePx f "1px url(\"\" \\7+2.5px)".toList =
          f ['1'] ++ " url(\"\" \\7+2.5px)".toList := by cbv
    rw [convert, Conversion.convert, hreplace, hformat]
    rfl
  have hrule := processCss_ruleText (o := default) hparse rfl (by rw [judge, hconvert]; rfl)
  rw [hconvert] at hrule
  have hread :=
    default.parse_processCss _ none hopen rfl rfl (by simp [default]) fun property old new h => by
      obtain ⟨d, hd, rfl⟩ := value_of_replaced h
      rw [hparse, allDeclarations_ruleSheet] at hd
      rw [List.mem_singleton.mp hd]
      exact hclear
  rw [hrule.2] at hread
  exact ⟨hopen, hclear, hrule.2, hread⟩

/-! ## An escape in front of a length -/

/-- The default options with `rl` for the unit. -/
def rl : Options := { default with unit := ['r', 'l'] }

/-- The digits of a number go with an escape in front of them: `\7` and `5` spell a `u`, so what was
the name of a function becomes `url`, and the url ends earlier than the block did. -/
theorem parse_processCss_escape :
    ¬∀ (o : Options) (css : Text) (path : Option Text),
      Component.openBlocks (Component.ofText css) = 0 →
      o.replace = true → o.mediaQuery = false → o.unit ≠ [] → (∀ c ∈ o.unit, c.isAlpha = true) →
      Sheet.parse (o.processCss css path) path = (o.process (.parse css path)).sheet := by
  intro h
  have hopen :
      Component.openBlocks (Component.ofText (ruleText "\\7+2.5px((a);c)".toList)) = 0 := by cbv
  have hparse : Sheet.parse (ruleText "\\7+2.5px((a);c)".toList) none =
      ruleSheet "\\7+2.5px((a);c)".toList := by cbv
  have hconvert : rl.convert "\\7+2.5px((a);c)".toList = "\\75rl((a);c)".toList := by
    have hformat : rl.conversion.format "+2.5".toList = "5rl".toList := by decide +kernel
    have hreplace (f : Text → Text) :
        replacePx f "\\7+2.5px((a);c)".toList =
          "\\7".toList ++ f "+2.5".toList ++ "((a);c)".toList := by cbv
    rw [convert, Conversion.convert, hreplace, hformat]
    rfl
  obtain ⟨hrun, hwritten⟩ := processCss_ruleText (o := rl) hparse rfl (by rw [judge, hconvert]; rfl)
  rw [hconvert] at hrun hwritten
  have hread := h rl _ none hopen rfl rfl (by simp [rl]) (by simp [rl])
  rw [hrun, hwritten] at hread
  have hvalue :
      Sheet.parse (ruleText "\\75rl((a);c)".toList) none ≠ ruleSheet "\\75rl((a);c)".toList := by
    decide_cbv
  exact hvalue hread

end Options

end Relength
