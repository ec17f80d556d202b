import Relength.Proofs.Rereading
import Relength.Proofs.Respelling.Values

/-!
# Reading a sheet with other values

`Revalued` relates two lists of trees that differ in the values of declarations only, each value
respelled. Respelling keeps the marks of a text, so the text of a respelled item is tokens that end
where those of the item did.

* `Declaration.spellable_respelling`: a respelled declaration is read from a respelled item;
* `Sheet.parse_render_revalued`: the sheet with the other values is read back from its text.
-/

namespace Relength

open Token Lexer

/-- The declaration has its value respelled. -/
def Declaration.Respelling (d : Declaration) (new : List Node) : Prop :=
  ∃ w, Respelled .outside d.value w ∧ new = [.declaration (d.withValue w)]

/-- The second list is the first with the values of declarations respelled. -/
def Revalued : List Node → List Node → Prop := Edited Declaration.Respelling

namespace Revalued

theorem nil : Revalued [] [] := Edited.nil

theorem declaration {d : Declaration} {w : Text} {ns ns' : List Node}
    (h : Respelled .outside d.value w) (hrest : Revalued ns ns') :
    Revalued (.declaration d :: ns) (.declaration (d.withValue w) :: ns') :=
  Edited.declaration (show d.Respelling [.declaration (d.withValue w)] from ⟨w, h, rfl⟩) hrest

theorem block {head : Head} {spacing : Spacing} {children children' ns ns' : List Node}
    (hchildren : Revalued children children') (hrest : Revalued ns ns') :
    Revalued (.block head spacing children :: ns) (.block head spacing children' :: ns') :=
  Edited.block hchildren hrest

theorem bare {n : Node} {ns ns' : List Node} (hn : n.isBare = true) (hrest : Revalued ns ns') :
    Revalued (n :: ns) (n :: ns') :=
  Edited.bare hn hrest

theorem refl (ns : List Node) : Revalued ns ns :=
  Edited.refl (fun d => ⟨d.value, .refl .outside d.value, rfl⟩) ns

end Revalued

/-! ## The text of a respelled item -/

namespace Reader

/-- Whether tokens pass is told from their text, also when a url in it is cut off. -/
theorem exists_passAll_iff {ts : List Token} (h : Lexes ts []) (top : Bool) :
    (∃ stack, passAll top [] (ts.flatMap (·.kind.marks)) = some stack) ↔
      ∃ stack, passAll top [] (marks fresh (join ts)) = some stack := by
  have hjoin {ms : List Mark} (hscans : Scans fresh (join ts) ms fresh []) :
      marks fresh (join ts) = ms := by
    have := hscans.marks_eq [] [] rfl
    rw [List.append_nil] at this
    rw [this]
    simp [marks, run]
  rcases marks_join h with hscans | ⟨-, us, u, rfl, hu, hscans⟩
  · rw [hjoin hscans]
  · rw [hjoin hscans, List.flatMap_append, passAll_append, passAll_append]
    cases passAll top [] (us.flatMap (·.kind.marks)) with
    | none => simp
    | some stack => simp [hu, passAll_round, passAll_singleton, pass]

end Reader

/-- A text through which the lexer goes as through the tokens of a value is tokens of a value as
well, where the item ends. -/
theorem Ending.exists_lexes {terminated : Bool} {rest : Text} (hend : Ending terminated rest)
    {vs : List Token} (hvs : Lexes vs rest) {top : Bool} {stack : List Bracket}
    (hpass : Reader.passAll top [] (vs.flatMap (·.kind.marks)) = some stack) {w : Text}
    (hw : run fresh w = run fresh (join vs)) :
    ∃ ws stack', join ws = w ∧ Lexes ws rest ∧
      Reader.passAll top [] (ws.flatMap (·.kind.marks)) = some stack' ∧
      (rest ≠ [] → stack' = stack) := by
  cases hend with
  | semicolon rest =>
    obtain ⟨ws, hjoin, hws, hmarks⟩ :=
      exists_lexes_ending (t := ⟨.semicolon, [';']⟩) rfl (.inl rfl) hvs hw
    exact ⟨ws, stack, hjoin, hws, hmarks ▸ hpass, fun _ => rfl⟩
  | brace rest =>
    obtain ⟨ws, hjoin, hws, hmarks⟩ :=
      exists_lexes_ending (t := ⟨.closing .curly, ['}']⟩) rfl (.inr rfl) hvs hw
    exact ⟨ws, stack, hjoin, hws, hmarks ▸ hpass, fun _ => rfl⟩
  | text =>
    obtain ⟨stack', hpass'⟩ : ∃ stack',
        Reader.passAll top [] ((tokenize w).flatMap (·.kind.marks)) = some stack' := by
      rw [Reader.exists_passAll_iff (lexes_tokenize w), join_tokenize, marks, hw]
      exact (Reader.exists_passAll_iff hvs top).mp ⟨stack, hpass⟩
    exact ⟨tokenize w, stack', join_tokenize w, lexes_tokenize w, hpass', fun h => absurd rfl h⟩

/-- A declaration with a respelled value is read from the item with the value respelled. -/
theorem Declaration.spellable_respelling : Spellable Declaration.Respelling False := by
  rintro o top us vs stack terminated rest _ hin hend hstack ⟨w, hw, rfl⟩
  obtain ⟨hd, hblank⟩ := ofSource_respelled o.before o.name (join vs) terminated hw
  obtain ⟨ws, stack', hjoin, hws, hpass, hsame⟩ :=
    hend.exists_lexes hin.lexes hin.pass (run_respell o.before o.name (join vs) terminated hw)
  refine ⟨ws, o, respell (join vs) w, [], stack', hws, fun nodes outer houter => ?_, ?_,
    fun hr => (hsame hr).trans (hstack (.inl hr)), fun _ => hblank⟩
  · rw [List.append_nil, ← hjoin]
    exact OpenValue.foldl_of_pass hws.spelled (houter ▸ hpass)
  · rw [List.nil_append, OpenValue.declaration, OpenValue.declaration, hd]

/-- A sheet whose text leaves no block open and whose values were respelled is read back from its
text. -/
theorem Sheet.parse_render_revalued {css : Text} {path : Option Text} {nodes : List Node}
    (hopen : Component.openBlocks (Component.ofText css) = 0)
    (h : Revalued (parse css path).nodes nodes) :
    parse ({ parse css path with nodes := nodes } : Sheet).render path =
      { parse css path with nodes := nodes } := by
  rw [Component.ofText, Component.openBlocks_ofTokens, List.length_eq_zero_iff] at hopen
  exact parse_render_edited Declaration.spellable_respelling hopen False.elim h

end Relength
