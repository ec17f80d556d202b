import Relength.Proofs.Cursor.Bodies
import Relength.Proofs.Cursor.Lengths

/-!
# Reading ends and keeps the text

A loop over tokens ends if each turn of it leaves the cursor further on. A turn of a body may read a
token and give it back: the item that begins there is read from the cursor in front of the token.
What makes it a move is the item, which takes the same token once more (`Draft.precedes_item`). A
block is read by a cursor that stops in front of the closer, and leaving the block is a move from
there on, so it does not matter how far the block was read (`Cursor.reaches_nested`).

* `Draft.step_moves`, `Cursor.scanStep_moves`, `Search.step_moves`: the turns of the three loops;
* `reading_ends`: each turn is a move inside the text, so the loops end;
* `reading_never_lapses`: the readers get along without any of their defaults.
-/

namespace Relength

/-- A lapse shows nowhere: the reader goes on with the default. -/
def silently (α : Type) (_ : Lapse) (default : α) : Id α := default

namespace Cursor

theorem reaches_scanItem (colon : Option Nat) (c : Cursor) :
    c.Reaches (c.scanItem colon).2 ∧ (c.next.1 ≠ none → c.Precedes (c.scanItem colon).2) := by
  fun_induction scanItem colon c with
  | case1 colon c colon' c' h ih =>
    have hmoves := c.scanStep_moves colon
    rw [h] at hmoves
    exact ⟨hmoves.reaches.trans ih.1, fun _ => hmoves.trans_reaches ih.1⟩
  | case2 colon c result h =>
    have hmoves := c.scanStep_moves colon
    rw [h] at hmoves
    obtain ⟨hreaches, hprecedes, hfinish⟩ := hmoves
    exact ⟨hreaches, fun hnext => hprecedes fun h => hnext (hfinish h)⟩

section
variable {α : Type} [Inhabited α] {read : Cursor → Id (α × Cursor)}

theorem reaches_nested (h : ∀ c : Cursor, c.Reaches (read c).2) (c : Cursor) :
    c.Reaches (c.nested silently read).2 := by
  unfold nested
  split
  · exact .refl c
  · next b _ => exact reaches_leave ((c.reaches_enter b).trans (h _)) b
end
end Cursor

namespace Draft
variable {readBlock : Cursor → Id (Body × Cursor)} (h : ∀ c : Cursor, c.Reaches (readBlock c).2)

include h in
theorem reaches_block (c : Cursor) : c.Reaches (block silently readBlock c).2 :=
  Cursor.reaches_nested h c

include h in
theorem reaches_item (d : Draft) :
    (d.cursor.scanItem none).2.Reaches (d.item silently readBlock).cursor := by
  unfold item
  generalize d.cursor.scanItem none = scanned
  obtain ⟨scan, c⟩ := scanned
  dsimp only [bind, pure]
  cases scan.terminator with
  | block => exact reaches_block h c
  | semicolon => exact .refl c
  | finish => exact .refl c

include h in
theorem reaches_atRule (d : Draft) (name : Text) (c : Cursor) :
    c.Reaches (d.atRule silently readBlock name c).cursor := by
  have hscan := (c.reaches_scanItem none).1
  unfold atRule
  generalize c.scanItem none = scanned at hscan
  obtain ⟨scan, c'⟩ := scanned
  dsimp only [bind, pure]
  cases scan.terminator with
  | block => exact hscan.trans (reaches_block h c')
  | semicolon => exact hscan
  | finish => exact hscan

include h in
/-- The token that a turn has looked at is read again, by the reader of the item: with that, the
item is not empty. -/
theorem precedes_item {d : Draft} (hnext : d.cursor.next.1 ≠ none) :
    d.cursor.Precedes (d.item silently readBlock).cursor :=
  ((d.cursor.reaches_scanItem none).2 hnext).trans_reaches (reaches_item h d)

include h in
theorem step_moves (d : Draft) :
    match d.step silently readBlock with
    | .again d' => d.cursor.Precedes d'.cursor
    | .done (_, c) => d.cursor.Reaches c := by
  have hreaches := d.cursor.reaches_next
  have hitem := precedes_item h (d := d)
  unfold step
  cases hnext : d.cursor.next with
  | mk token c =>
    rw [hnext] at hreaches hitem
    cases token with
    | none => exact hreaches
    | some t =>
      have hprecedes := Cursor.next_precedes hnext
      dsimp only [bind, pure, Functor.map]
      cases t.role with
      | space | semicolon | comment => exact hprecedes
      | atKeyword => exact hprecedes.trans_reaches (reaches_atRule h d _ c)
      | colon | block | nested | other => exact hitem (by simp)

/-- However many turns a body is given, it is read from front to back. -/
theorem reaches_read (turns : Nat) (d : Draft) : d.cursor.Reaches (read silently turns d).2 := by
  induction turns generalizing d with
  | zero => exact .refl d.cursor
  | succ turns ih =>
    have hmoves := step_moves (fun c => ih (start c)) d
    unfold read
    dsimp only [bind, pure]
    cases hstep : d.step silently fun c => read silently turns (start c) with
    | again d' =>
      rw [hstep] at hmoves
      exact hmoves.reaches.trans (ih d')
    | done result =>
      rw [hstep] at hmoves
      exact hmoves

theorem reaches_bodyAt (turns : Nat) (c : Cursor) : c.Reaches (bodyAt silently turns c).2 :=
  reaches_read turns (start c)

end Draft

namespace Search

theorem step_moves {searchBlock : Search → Id (List Span × Cursor)}
    (h : ∀ s : Search, s.cursor.Reaches (searchBlock s).2) (s : Search) :
    match s.step silently searchBlock with
    | .again s' => s.cursor.Precedes s'.cursor
    | .done (_, c) => s.cursor.Reaches c := by
  have hreaches := s.cursor.reaches_next
  unfold step
  cases hnext : s.cursor.next with
  | mk token c =>
    rw [hnext] at hreaches
    cases token with
    | none => exact hreaches
    | some t =>
      have hprecedes := Cursor.next_precedes hnext
      dsimp only [bind, pure]
      split_ifs
      · exact hprecedes
      · exact hprecedes.trans_reaches c.reaches_skipNested
      · exact hprecedes.trans_reaches (Cursor.reaches_nested (fun inner => h ⟨s.spans, inner⟩) c)
      · exact hprecedes

theorem reaches_run (turns : Nat) (s : Search) : s.cursor.Reaches (run silently turns s).2 := by
  induction turns generalizing s with
  | zero => exact .refl s.cursor
  | succ turns ih =>
    have hmoves := step_moves ih s
    unfold run
    dsimp only [bind, pure]
    cases hstep : s.step silently (run silently turns) with
    | again s' =>
      rw [hstep] at hmoves
      exact hmoves.reaches.trans (ih s')
    | done result =>
      rw [hstep] at hmoves
      exact hmoves

end Search

/-- With a lapse the reader gives up. -/
def strictly (α : Type) (_ : Lapse) (_ : α) : Option α := none

/-- From every cursor, in whatever text and whichever blocks are open there, each turn that does not
end its loop leaves the cursor further on and not past the end of the text. That goes for bodies,
with the items and at-rules that a turn may read whole, for items and for the search for lengths. A
token that ends an item is passed as well. So every text is read in one turn more than it has
characters, at the most. -/
theorem reading_ends :
    (∀ (turns : Nat) (d d' : Draft),
      d.step silently (Draft.bodyAt silently turns) = .again d' → d.cursor.Precedes d'.cursor) ∧
    (∀ (colon colon' : Option Nat) (c c' : Cursor),
      c.scanStep colon = .again (colon', c') → c.Precedes c') ∧
    (∀ (colon : Option Nat) (scan : Scan) (c c' : Cursor),
      c.scanStep colon = .done (scan, c') → scan.terminator ≠ .finish → c.Precedes c') ∧
    (∀ (turns : Nat) (s s' : Search),
      s.step silently (Search.run silently turns) = .again s' → s.cursor.Precedes s'.cursor) ∧
    ∀ (css : Text) (path : Option Text) (turns : Nat), css.length < turns →
      Sheet.readAt strictly turns css path = some (Sheet.parse css path) ∧
        pxSpansAt strictly turns css =
          some (spansFrom 0 (Token.located [] (Token.tokenize css))) := by
  refine ⟨?_, ?_, ?_, ?_, ?_⟩
  · intro turns d d' h
    have hmoves := Draft.step_moves (Draft.reaches_bodyAt turns) d
    rwa [h] at hmoves
  · intro colon colon' c c' h
    have hmoves := c.scanStep_moves colon
    rwa [h] at hmoves
  · intro colon scan c c' h
    have hmoves := c.scanStep_moves colon
    rw [h] at hmoves
    exact hmoves.2.1
  · intro turns s s' h
    have hmoves := Search.step_moves (Search.reaches_run turns) s
    rwa [h] at hmoves
  · intro css path turns hturns
    refine ⟨Sheet.readAt_eq strictly css path hturns, ?_⟩
    rw [pxSpansAt_eq strictly css hturns, Component.ofText, Component.located_ofTokens]
    rfl

/-- Turns over a comment, a bracket and a length that the text leaves open, and over a `;`; and a
sheet of a lone backslash. -/
theorem reading_ends_openings :
    (∃ d, (Draft.start (.start "/*é".toList)).step silently (Draft.bodyAt silently 4) = .again d ∧
      (Cursor.start "/*é".toList).Precedes d.cursor) ∧
    (∃ c, (Cursor.start "(é]".toList).scanStep none = .again (none, c) ∧
      (Cursor.start "(é]".toList).Precedes c) ∧
    (∃ c, (Cursor.start ";é".toList).scanStep none = .done (⟨none, .semicolon, 0⟩, c) ∧
      Terminator.semicolon ≠ .finish ∧ (Cursor.start ";é".toList).Precedes c) ∧
    (∃ s, Search.step silently (Search.run silently 4) ⟨[], .start "é)1px".toList⟩ = .again s ∧
      (Cursor.start "é)1px".toList).Precedes s.cursor) ∧
    "\\".toList.length < 2 ∧
      Sheet.readAt strictly 2 "\\".toList none = some (Sheet.parse "\\".toList none) := by
  obtain ⟨hbody, hscan, hended, hsearch, hread⟩ := reading_ends
  have hcomment : (Draft.start (.start "/*é".toList)).step silently (Draft.bodyAt silently 4) =
      .again ⟨[.comment [] "/*é".toList], false, [], ⟨"/*é".toList, [], none, none⟩⟩ := by cbv
  have hbracket : (Cursor.start "(é]".toList).scanStep none =
      .again (none, ⟨"(é]".toList, [], none, none⟩) := by cbv
  have hsemicolon : (Cursor.start ";é".toList).scanStep none =
      .done (⟨none, .semicolon, 0⟩, ⟨[';'], ['é'], none, none⟩) := by cbv
  have hword : Search.step (m := Id) silently (Search.run silently 4) ⟨[], .start "é)1px".toList⟩ =
      .again ⟨[], ⟨['é'], ")1px".toList, none, none⟩⟩ := by cbv
  exact ⟨⟨_, hcomment, hbody 4 _ _ hcomment⟩, ⟨_, hbracket, hscan _ _ _ _ hbracket⟩,
    ⟨_, hsemicolon, by decide, hended _ _ _ _ hsemicolon (by decide)⟩,
    ⟨_, hword, hsearch 4 _ _ hword⟩, by decide, (hread _ none 2 (by decide)).1⟩

/-- A replacement without effects brings none in. -/
theorem replacePxWith_pure {m : Type → Type} [Monad m] [LawfulMonad m] (f : Text → Text)
    (s : Text) :
    replacePxWith (m := m) (fun number => pure (f number)) s = pure (replacePx f s) := by
  have htext (p : Token × Bool) : Token.textWith (m := m) (fun number => pure (f number)) p =
      pure (((Token.lengthAt? p).map f).getD p.1.source) := by
    rw [Token.textWith]
    cases Token.lengthAt? p <;> rfl
  rw [replacePxWith_eq_textsWith, replacePx_eq_flatMap, Token.textsWith, funext htext,
    List.mapM_pure, map_pure]
  rfl

/-- Whatever a lapse does, nothing of it shows: a sheet read from positions is the sheet, and a text
with its lengths replaced at their positions is the text with its lengths replaced. The reader of a
block always exhausts it, what stands behind the `@` and behind the colon is there, the first colon
of a declaration is in its trimmed text, and so are all texts between positions. -/
theorem reading_never_lapses {m : Type → Type} [Monad m] [LawfulMonad m]
    (lapse : (α : Type) → Lapse → α → m α) :
    (∀ (css : Text) (path : Option Text),
      Sheet.readAt lapse (css.length + 1) css path = pure (Sheet.parse css path)) ∧
    (∀ (f : Text → m Text) (s : Text), replacePxAt lapse f s = replacePxWith f s) ∧
    ∀ (f : Text → Text) (s : Text),
      replacePxAt lapse (fun number => pure (f number)) s = pure (replacePx f s) :=
  ⟨fun css path => Sheet.readAt_eq lapse css path css.length.lt_succ_self,
    fun f s => replacePxAt_eq lapse f s,
    fun f s => (replacePxAt_eq lapse _ s).trans (replacePxWith_pure f s)⟩

/-- A lapse is kept in a record. -/
def recording (α : Type) (place : Lapse) (default : α) : StateM (List Lapse) α := do
  modify (· ++ [place])
  return default

def openRule : Text := "a\x7b@é x;b:\\é".toList

/-- Nothing is recorded while a block, an at-rule and a declaration are read that the text leaves
open, nor while a length in an open bracket is replaced. -/
theorem reading_never_lapses_recording :
    LawfulMonad (StateM (List Lapse)) ∧
      (Sheet.readAt recording (openRule.length + 1) openRule none).run [] =
        (⟨⟨[.block (.style ['a']) ⟨[], [], [], false⟩
          [.statement ⟨['é'], [' '], ['x']⟩ ⟨[], [], [], false⟩,
            .declaration ⟨['b'], "\\é".toList, false, [], [':'], [], []⟩]], [], false⟩, none⟩, []) ∧
      (replacePxAt recording (fun number => pure ('+' :: number)) "(é 1px".toList).run [] =
        ("(é +1".toList, []) := by
  obtain ⟨hsheet, -, hreplace⟩ := reading_never_lapses (m := StateM (List Lapse)) recording
  have hparse : Sheet.parse openRule none = ⟨⟨[.block (.style ['a']) ⟨[], [], [], false⟩
      [.statement ⟨['é'], [' '], ['x']⟩ ⟨[], [], [], false⟩,
        .declaration ⟨['b'], "\\é".toList, false, [], [':'], [], []⟩]], [], false⟩, none⟩ := by cbv
  have htext : replacePx (fun number => '+' :: number) "(é 1px".toList = "(é +1".toList := by cbv
  refine ⟨inferInstance, ?_, ?_⟩
  · rw [hsheet, hparse]
    rfl
  · rw [hreplace, htext]
    rfl

end Relength
