import Relength.Proofs.Quiet
import Relength.Proofs.Rereading
import Relength.Sheet.Address

/-!
# Copies of declarations

A copy of a declaration with another value is put behind it, and the sheet is written. The copy
begins where the declaration does, behind a `;`, so its text in front of the value is that of the
declaration once more. The declaration itself may have been the last of its body: a `;` is then
written where its value ends, and the blanks that stood there go behind the copy. So a `;` behind
the text of the declaration has to be one (`Declaration.EndsOutside`).

* `Declaration.spellable_cloned`: both declarations are read from the text of the item;
* `Sheet.parse_render_cloneAfter`: a sheet with a copied declaration is read back from its text.
-/

namespace Relength

open Token Lexer

namespace Declaration

/-- A `;` behind the text of the declaration is one, and not a part of what stands there. -/
def EndsOutside (d : Declaration) : Prop :=
  (run fresh (d.between ++ d.value ++ d.importantText ++ d.trailing)).1.isOutside = true

/-- The declaration stays alone, or a copy with this value follows it. -/
def Cloned (v : Text) (d : Declaration) (new : List Node) : Prop :=
  new = [.declaration d] ∨ d.EndsOutside ∧ new = [.declaration d, .declaration (d.withValue v)]

/-! ## The text of a declaration -/

/-- The text behind the colon that is written in front of a `;`. -/
def kept (value : Text) (terminated : Bool) : Text :=
  if terminated then value else Text.trimEnd value

theorem ofSource_kept (before name value : Text) (terminated : Bool) :
    ofSource before name (kept value terminated) true = ofSource before name value terminated := by
  cases terminated with
  | true => rfl
  | false =>
    simp only [kept, Bool.false_eq_true, if_false, ofSource, if_true, Text.trimEnd_trimEnd,
      Text.blankEnd_trimEnd]

theorem endsOutside_ofSource (before name value : Text) (terminated : Bool) :
    (ofSource before name value terminated).EndsOutside ↔
      (run fresh (kept value terminated)).1.isOutside = true := by
  have htext : (ofSource before name value terminated).between ++
      (ofSource before name value terminated).value ++
      (ofSource before name value terminated).importantText ++
      (ofSource before name value terminated).trailing =
        Text.blankEnd name ++ ':' :: kept value terminated := by
    rw [importantText_ofSource]
    have hparts := splitImportant_append (Text.trimStart (Text.trimEnd value))
    have hjoined := Text.blankStart_append_trimStart (Text.trimEnd value)
    have hkept : kept value terminated =
        Text.trimEnd value ++ (if terminated then Text.blankEnd value else []) := by
      cases terminated with
      | true => exact (Text.trimEnd_append_blankEnd value).symm
      | false => exact (List.append_nil _).symm
    rw [hkept]
    conv_rhs => rw [← hjoined, ← hparts]
    simp [ofSource]
  obtain ⟨url, hblanks⟩ := run_blanks (some 0) (b := Text.blankEnd name)
    fun c hc => (Text.splitEnd_spec name).2 c hc
  have hcolon : step (.plain (.word url)) ':' = (fresh, []) := by
    simp [step, plainStep, wordStep, isNameChar, isNameStart, single, Kind.marks]
  rw [EndsOutside, htext, run_append, fresh, hblanks, run, hcolon]
  rfl

/-- The blanks behind the text change nothing. -/
theorem run_of_kept {value : Text} {terminated : Bool}
    (h : (run fresh (kept value terminated)).1.isOutside = true) :
    (run fresh value).1.isOutside = true ∧
      (run fresh value).2 = (run fresh (kept value terminated)).2 := by
  cases terminated with
  | true => exact ⟨h, rfl⟩
  | false =>
    obtain ⟨hend, hmarks⟩ := run_quiet h (t := Text.blankEnd value)
      fun c hc => isQuiet_of_isBlank ((Text.splitEnd_spec value).2 c hc)
    simp only [kept, Bool.false_eq_true, if_false] at hend hmarks ⊢
    have hrun := run_append fresh (Text.trimEnd value) (Text.blankEnd value)
    rw [Text.trimEnd_append_blankEnd, hmarks, List.append_nil] at hrun
    rw [hrun]
    exact ⟨hend, rfl⟩

end Declaration

/-! ## The text of a declaration and its copy -/

namespace Ending

variable {terminated : Bool} {rest : Text} (hend : Ending terminated rest)

include hend

theorem lexes_outside {s : Text} (h : (run fresh s).1.isOutside = true) :
    Lexes (tokenize s) rest := by
  cases hend with
  | semicolon rest => exact lexes_tokenize_ending h (t := ⟨.semicolon, [';']⟩) rfl (.inl rfl) rest
  | brace rest =>
    exact lexes_tokenize_ending h (t := ⟨.closing .curly, ['}']⟩) rfl (.inr rfl) rest
  | text => exact lexes_tokenize s

theorem tokenize_value {vs : List Token} (hvs : Lexes vs rest) : tokenize (join vs) = vs := by
  cases hend with
  | semicolon rest => exact (hvs.at_end rfl).tokenize_join
  | brace rest => exact (hvs.at_end rfl).tokenize_join
  | text => exact hvs.tokenize_join

end Ending

/-- A text whose tokens pass is text of the value. -/
theorem OpenValue.foldl_tokenize (o : OpenValue) (nodes : List Node) {outer : List Level} {s : Text}
    (h : Reader.passAll outer.isEmpty [] ((tokenize s).flatMap (·.kind.marks)) = some []) :
    (tokenize s).foldl Reader.step (o.reader [] nodes outer []) = o.reader s nodes outer [] := by
  have hfold : (tokenize s).foldl Reader.step (o.reader [] nodes outer []) =
      o.reader ([] ++ join (tokenize s)) nodes outer [] := foldl_of_pass (spelled_tokenize s) h
  rwa [join_tokenize] at hfold

namespace OpenValue.Inside

variable {o : OpenValue} {top : Bool} {us vs : List Token} {terminated : Bool} {rest v : Text}

/-- The item spells its own declaration. -/
theorem spells_self (hin : o.Inside top us vs [] rest) :
    o.Spells top (join vs) terminated rest
      [.declaration (o.declaration (join vs) terminated)] := by
  refine ⟨vs, o, join vs, [], [], hin.lexes, fun nodes outer houter => ?_, rfl, fun _ => rfl,
    fun _ => rfl⟩
  rw [hin.foldl nodes houter, List.append_nil]

/-- Behind the declaration with its `;`, the text up to its value once more, and the other value in
place of the old one. -/
theorem spells_copy (hin : o.Inside top us vs [] rest) (hend : Ending terminated rest)
    (houtside : (o.declaration (join vs) terminated).EndsOutside) (hsingle : v.IsSingle)
    (hkept : v.IsKept) :
    o.Spells top (join vs) terminated rest [.declaration (o.declaration (join vs) terminated),
      .declaration ((o.declaration (join vs) terminated).withValue v)] := by
  have hold := (Declaration.endsOutside_ofSource ..).mp houtside
  obtain ⟨hvalue, hmarks⟩ := Declaration.run_of_kept hold
  obtain ⟨hcopy, hnone⟩ := Declaration.run_respell_single (join vs) hsingle hkept
  obtain ⟨hd, hblank⟩ :=
    Declaration.ofSource_respell_single o.before o.name (join vs) terminated hsingle hkept
  have hpassOld : Reader.passAll top []
      ((tokenize (Declaration.kept (join vs) terminated)).flatMap (·.kind.marks)) = some [] := by
    rw [marks_tokenize hold, ← hmarks, ← marks_tokenize hvalue, hend.tokenize_value hin.lexes]
    exact hin.pass
  have hpassCopy : Reader.passAll top []
      ((tokenize (Declaration.respell (join vs) v)).flatMap (·.kind.marks)) = some [] := by
    rw [marks_tokenize hcopy, hnone]
    rfl
  refine ⟨tokenize (Declaration.kept (join vs) terminated) ++
      (⟨.semicolon, [';']⟩ :: (us ++ tokenize (Declaration.respell (join vs) v))),
    { o with semicolon := true }, Declaration.respell (join vs) v,
    [.declaration (o.declaration (join vs) terminated)], [], ?_, fun nodes outer houter => ?_, ?_,
    fun _ => rfl, fun _ => hblank⟩
  · refine Lexes.append ((Ending.semicolon _).lexes_outside hold) ?_
    exact lexes_cons_iff.mpr
      ⟨next?_stop rfl _, (hin.led.lexes _).append (hend.lexes_outside hcopy)⟩
  · subst houter
    have hsemicolon : (o.reader (Declaration.kept (join vs) terminated) nodes outer []).step
        ⟨.semicolon, [';']⟩ = .beginning
          (nodes ++ [.declaration (o.declaration (join vs) terminated)]) true outer := by
      rw [step_semicolon _ _ _ _ rfl, OpenValue.declaration, Declaration.ofSource_kept]
      rfl
    rw [List.foldl_append, o.foldl_tokenize nodes hpassOld, List.foldl_cons, hsemicolon,
      List.foldl_append, hin.led.read _ _ _ rfl, foldl_tokenize _ _ hpassCopy]
  · rw [OpenValue.declaration, OpenValue.declaration, hd]
    rfl

end OpenValue.Inside

/-- A declaration, and a copy with a single word for its value behind it, are read from the text of
the item. -/
theorem Declaration.spellable_cloned {v : Text} (hsingle : v.IsSingle) (hkept : v.IsKept) :
    Spellable (Cloned v) True := by
  rintro o top us vs stack terminated rest new hin hend hstack h
  obtain rfl : stack = [] := hstack (.inr trivial)
  rcases h with rfl | ⟨houtside, rfl⟩
  · exact hin.spells_self
  · exact hin.spells_copy hend houtside hsingle hkept

/-! ## Edits at an address -/

section Address

variable {E : Declaration → List Node → Prop} (hE : ∀ d, E d [.declaration d])

include hE

/-- An edit of one node among its siblings. -/
theorem Edited.splice {nodes new : List Node} {i : Nat} {n : Node} (hn : nodes[i]? = some n)
    (h : Edited E [n] new) : Edited E nodes (nodes.take i ++ (new ++ nodes.drop (i + 1))) := by
  obtain ⟨hi, rfl⟩ := List.getElem?_eq_some_iff.mp hn
  have hsplit : nodes = nodes.take i ++ ([nodes[i]] ++ nodes.drop (i + 1)) := by
    rw [List.singleton_append, ← List.drop_eq_getElem_cons hi, List.take_append_drop]
  have hall := (refl hE (nodes.take i)).append (h.append (refl hE (nodes.drop (i + 1))))
  rwa [← hsplit] at hall

/-- An edit of the siblings in the block at an address. -/
theorem Edited.editList {f : List Node → Except AddressError (List Node)}
    {nodes siblings new : List Node} {path : Address}
    (hlist : Node.listAt nodes path = .ok siblings) (hf : f siblings = .ok new)
    (h : Edited E siblings new) :
    ∃ nodes', Node.editList f nodes path = .ok nodes' ∧ Edited E nodes nodes' := by
  induction path generalizing nodes with
  | nil =>
    obtain rfl : nodes = siblings := Except.ok.inj hlist
    exact ⟨new, hf, h⟩
  | cons i path ih =>
    rw [Node.listAt] at hlist
    split at hlist
    · next head spacing children hi =>
      obtain ⟨children', hedit, hchildren⟩ := ih hlist
      refine ⟨nodes.set i (.block head spacing children'), ?_, ?_⟩
      · rw [Node.editList, hi]
        simp only [hedit, Except.map]
      · rw [List.set_eq_take_append_cons_drop, if_pos (List.getElem?_eq_some_iff.mp hi).1]
        exact splice hE hi (.block hchildren .nil)
    · cases hlist

/-- An edit of the siblings of the node at an address. -/
theorem Edited.editAt {f : List Node → Nat → Node → Except AddressError (List Node)}
    {nodes siblings new : List Node} {address : Address} {i : Nat} {n : Node}
    (hlast : address.getLast? = some i)
    (hlist : Node.listAt nodes address.dropLast = .ok siblings) (hn : siblings[i]? = some n)
    (hf : f siblings i n = .ok new) (h : Edited E siblings new) :
    ∃ nodes', Node.editAt f nodes address = .ok nodes' ∧ Edited E nodes nodes' := by
  simp only [Node.editAt, hlast]
  exact editList hE hlist (by simp only [hn, hf]) h

end Address

/-- Directly behind an element stands what is put there. -/
theorem insertIdx_succ {α : Type} {l : List α} {i : Nat} {a : α} (h : l[i]? = some a) (b : α) :
    l.insertIdx (i + 1) b = l.take i ++ ([a, b] ++ l.drop (i + 1)) := by
  induction l generalizing i with
  | nil => cases h
  | cons c l ih =>
    cases i with
    | zero =>
      obtain rfl : c = a := Option.some.inj h
      rfl
    | succ i => simpa using ih (by simpa using h)

namespace Sheet

/-- A declaration at an address is one of the siblings in the block there. -/
theorem exists_siblings {s : Sheet} {address : Address} {d : Declaration}
    (h : s.declarationAt address = .ok d) :
    ∃ i siblings, address.getLast? = some i ∧
      Node.listAt s.nodes address.dropLast = .ok siblings ∧
      siblings[i]? = some (.declaration d) := by
  unfold declarationAt Node.nodeAt at h
  cases hlast : address.getLast? with
  | none => simp [hlast, bind, Except.bind] at h
  | some i =>
    cases hlist : Node.listAt s.nodes address.dropLast with
    | error e => simp [hlast, hlist, bind, Except.bind] at h
    | ok siblings =>
      refine ⟨i, siblings, rfl, rfl, ?_⟩
      cases hn : siblings[i]? with
      | none => simp [hlast, hlist, hn, bind, Except.bind] at h
      | some n =>
        simp only [hlast, hlist, hn, Option.map_some, Option.getD_some, bind, Except.bind] at h
        cases n with
        | declaration d' =>
          obtain rfl : d' = d := Except.ok.inj h
          rfl
        | block head spacing children => cases h
        | statement rule spacing => cases h
        | comment before text => cases h
        | other before text terminated => cases h

/-- A copy of a declaration is put behind it. -/
theorem cloneAfter_edited {s : Sheet} {address : Address} {d : Declaration} {v : Text}
    (h : s.declarationAt address = .ok d) (hend : d.EndsOutside) :
    ∃ nodes, s.cloneAfter address v = .ok { s with nodes := nodes } ∧
      Edited (Declaration.Cloned v) s.nodes nodes := by
  obtain ⟨i, siblings, hlast, hlist, hd⟩ := exists_siblings h
  have hcopy : Edited (Declaration.Cloned v) [.declaration d]
      ([.declaration d, .declaration (d.withValue v)] ++ []) :=
    .declaration (.inr ⟨hend, rfl⟩) .nil
  obtain ⟨nodes, hedit, hnodes⟩ := Edited.editAt (fun _ => .inl rfl) hlast hlist hd
    (f := fun siblings i n => n.asDeclaration.map fun d =>
      siblings.insertIdx (i + 1) (.declaration (d.withValue v)))
    (congrArg Except.ok (insertIdx_succ hd _)) (Edited.splice (fun _ => .inl rfl) hd hcopy)
  exact ⟨nodes, by rw [cloneAfter, editAt, hedit]; rfl, hnodes⟩

/-- Where every bracket of the text is closed, a copy with a single word for its value goes in
behind any declaration behind which a `;` is one: the sheet with the copy is read back from its
text. -/
theorem parse_render_cloneAfter {css : Text} {path : Option Text} {address : Address}
    {d : Declaration} {v : Text} (hclosed : encloseAll [] (tokenize css) = [])
    (hd : (parse css path).declarationAt address = .ok d) (hend : d.EndsOutside)
    (hsingle : v.IsSingle) (hkept : v.IsKept) :
    ∃ s, (parse css path).cloneAfter address v = .ok s ∧ parse s.render path = s := by
  obtain ⟨inner, bodies, haround, hinner, hbodies, -⟩ := Reader.enclosed_foldl (tokenize css)
  rw [hclosed] at haround
  obtain ⟨rfl, rfl⟩ := List.append_eq_nil_iff.mp haround.symm
  have hskipped : ((tokenize css).foldl Reader.step .start).skipped = [] :=
    List.map_eq_nil_iff.mp hinner.symm
  have houter : ((tokenize css).foldl Reader.step .start).outer = [] :=
    List.map_eq_nil_iff.mp hbodies.symm
  obtain ⟨nodes, hclone, hnodes⟩ := cloneAfter_edited hd hend
  exact ⟨_, hclone, parse_render_edited (Declaration.spellable_cloned hsingle hkept) houter
    (fun _ => hskipped) hnodes⟩

/-- A rule in an at-rule, with a blank behind its only declaration. -/
def nestedRule : Text := "@media x\x7ba\x7bb:c!important \x7d\x7d".toList

/-- The declaration in `nestedRule`. -/
def nestedDeclaration : Declaration :=
  ⟨['b'], ['c'], true, [], [':'], "!important".toList, []⟩

/-- A copy of the last declaration of its block, which no `;` ended. -/
theorem parse_render_cloneAfter_nested :
    encloseAll [] (tokenize nestedRule) = [] ∧
      (parse nestedRule none).declarationAt [0, 0, 0] = .ok nestedDeclaration ∧
      nestedDeclaration.EndsOutside ∧ Text.IsSingle "2px".toList ∧ Text.IsKept "2px".toList ∧
      ∃ s, (parse nestedRule none).cloneAfter [0, 0, 0] "2px".toList = .ok s ∧
        parse s.render none = s := by
  have hclosed : encloseAll [] (tokenize nestedRule) = [] := by cbv
  have hd : (parse nestedRule none).declarationAt [0, 0, 0] = .ok nestedDeclaration := by cbv
  have hend : nestedDeclaration.EndsOutside := by
    unfold Declaration.EndsOutside
    cbv
  have hsingle : Text.IsSingle "2px".toList :=
    ⟨⟨.dimension ['p', 'x'], "2px".toList⟩, by cbv, ['p', 'x'], .inr rfl⟩
  have hkept : Text.IsKept "2px".toList := ⟨by cbv, by cbv, by cbv⟩
  exact ⟨hclosed, hd, hend, hsingle, hkept, parse_render_cloneAfter hclosed hd hend hsingle hkept⟩

/-- The rule `a` with these nodes and a blank behind them. -/
def spacedRule (nodes : List Node) : Sheet :=
  ⟨⟨[.block (.style ['a']) ⟨[], [], [' '], false⟩ nodes], [], false⟩, none⟩

/-- An escaped blank at the end of a value is cut off from its backslash. Behind a declaration that
was the last of its block the `;` is then escaped, and the copy is text of the value. -/
theorem parse_render_cloneAfter_escape :
    ¬∀ (css : Text) (path : Option Text) (address : Address) (d : Declaration) (v : Text),
      encloseAll [] (tokenize css) = [] → (run fresh css).1.isOutside = true →
      (∀ t ∈ tokenize css, t.kind ≠ .badString ∧ t.kind ≠ .badUrl) →
      (parse css path).declarationAt address = .ok d → v.IsSingle →
      ∃ s, (parse css path).cloneAfter address v = .ok s ∧ parse s.render path = s := by
  intro h
  let d : Declaration := ⟨['b'], ['c', '\\'], false, [], [':'], [], []⟩
  have hparse : parse "a\x7bb:c\\ \x7d".toList none = spacedRule [.declaration d] := by cbv
  have htokens : (tokenize "a\x7bb:c\\ \x7d".toList).all
      (fun t => t.kind != .badString && t.kind != .badUrl) = true := by cbv
  have hclone : (spacedRule [.declaration d]).cloneAfter [0, 0] ['x'] =
      .ok (spacedRule [.declaration d, .declaration (d.withValue ['x'])]) := by cbv
  have hrender : (spacedRule [.declaration d, .declaration (d.withValue ['x'])]).render =
      "a\x7bb:c\\;b:x \x7d".toList := by cbv
  have hread : parse "a\x7bb:c\\;b:x \x7d".toList none ≠
      spacedRule [.declaration d, .declaration (d.withValue ['x'])] := by decide_cbv
  obtain ⟨s, hs, hagain⟩ := h "a\x7bb:c\\ \x7d".toList none [0, 0] d ['x'] (by cbv) (by cbv)
    (by simpa using htokens) (by rw [hparse]; rfl) ⟨⟨.ident ['x'], ['x']⟩, by cbv, ['x'], .inl rfl⟩
  rw [hparse, hclone] at hs
  obtain rfl := Except.ok.inj hs
  rw [hrender] at hagain
  exact hread hagain

end Sheet

end Relength
