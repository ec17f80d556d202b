import Relength.Proofs.Cursor.Items

/-!
# Bodies, read from positions

Where a cursor shows some components, `Draft.read` gives the body of these components. The proof
goes turn by turn: `Draft.outcome` is the body that comes of a draft and of the components in front
of its cursor, and no turn changes it (`Draft.step_shows`).
-/

namespace Relength

open String (utf8Len)

open Component

namespace Draft

section Readers

variable {m : Type → Type} [Monad m] [LawfulMonad m] (lapse : (α : Type) → Lapse → α → m α)

theorem declaration_eq (before name value : Text) (terminated : Bool) :
    declaration lapse (Text.trimEnd (name ++ ':' :: value)) (utf8Len name) before
        (if terminated then Text.blankEnd (name ++ ':' :: value) else []) =
      pure (.ofSource before name value terminated) := by
  have hcolon : Text.isBlank ':' = false := rfl
  rw [Text.trimEnd_append_cons hcolon, Text.blankEnd_append_cons hcolon, declaration,
    Text.cut?_append, orDefault, pure_bind]
  dsimp only
  rw [Text.cutEnd_eq, pure_bind]
  dsimp only
  rw [Text.behindFirst_eq lapse (by decide), pure_bind, Text.cutStart_eq, pure_bind]
  rfl

/-- The node of an item, from its components. -/
def plainNode (before : Text) (cs : List Component) (terminated : Bool) : Node :=
  match colonSplit? cs with
  | some (a, b) => .declaration (.ofSource before a b terminated)
  | none => .other before (if terminated then source cs else Text.trimEnd (source cs)) terminated

/-- The first colon splits the trimmed text of an item. -/
theorem plain_eq {d : Draft} {item cs : List Component} {tail : List Token}
    (h : d.cursor.Shows (item ++ cs) tail) (terminator : Terminator) (position : Nat)
    (trailing : Text) (terminated : Bool)
    (htrailing : trailing = if terminated then Text.blankEnd (source item) else []) :
    d.plain lapse
        ⟨(colonSplit? item).map fun p => d.cursor.position + utf8Len p.1, terminator, position⟩
        (Text.trimEnd (source item)) trailing terminated =
      pure (plainNode d.pending item terminated) := by
  rw [plain, plainNode, htrailing]
  cases hsplit : colonSplit? item with
  | none =>
    cases terminated with
    | true => simp [Text.trimEnd_append_blankEnd]
    | false => simp
  | some p =>
    obtain ⟨a, b⟩ := p
    have hsource := source_of_colonSplit? (h.spelled item) hsplit
    have htext : d.cursor.text =
        d.cursor.passed ++ a ++ (':' :: b ++ source cs ++ Token.join tail) := by
      rw [Cursor.text, h.rest_eq, source_append, hsource]
      simp
    have hname : d.cursor.text.sliceAt lapse d.cursor.position
        (d.cursor.position + utf8Len a) = pure a := by
      rw [Cursor.position, ← String.utf8Len_append]
      exact Text.sliceAt_eq lapse htext
    dsimp only [Option.map_some]
    rw [hname, pure_bind, hsource, declaration_eq, pure_bind]

end Readers

/-- The body that comes of an open item and of the components behind it. -/
def bodyOf (nodes : List Node) (reading : Reading) (cs : List Component) : Body :=
  (reading.run cs).2.finish (nodes ++ (reading.run cs).1)

/-- The body that comes of a draft and of the components in front of its cursor. -/
def outcome (d : Draft) (cs : List Component) : Body :=
  bodyOf d.nodes ⟨.gap d.pending, d.semicolon⟩ cs

theorem bodyOf_append {nodes : List Node} {reading reading' : Reading} {item : List Component}
    (h : reading.run item = ([], reading')) (cs : List Component) :
    bodyOf nodes reading (item ++ cs) = bodyOf nodes reading' cs := by
  simp [bodyOf, Reading.run_append, h]

/-- Reading goes on in a later draft, with fewer components, to the same body. -/
structure Continues (d : Draft) (cs : List Component) (d' : Draft) (cs' : List Component)
    (tail : List Token) : Prop where
  shows : d'.cursor.Shows cs' tail
  fewer : (tokens cs').length < (tokens cs).length
  outcome : d'.outcome cs' = d.outcome cs
  cursor : d'.cursor.advance (source cs').length = d.cursor.advance (source cs).length

/-- The draft behind an item, and the components behind it. -/
def ended (d : Draft) (o : Open) (c : Cursor) : List Component → Draft × List Component
  | [] => (⟨d.nodes ++ o.finish.1, false, o.finish.2, c⟩, [])
  | .token t :: cs => (⟨d.nodes ++ o.semicolon.1, true, [], c.behind t⟩, cs)
  | .block opener content closer :: cs =>
    (⟨d.nodes ++ [o.block (.ofComponents content)], d.semicolon, [],
      c.advance (source [.block opener content closer]).length⟩, cs)

section Ended

variable {d : Draft} {o : Open} {c : Cursor} {cs : List Component} {tail : List Token}

theorem semicolon_of_item (ho : o.isGap = false) : o.semicolon.2 = .gap [] := by
  cases o with
  | gap pending => cases ho
  | item before name value => cases value <;> rfl
  | atRule before name text => rfl

theorem bodyOf_nil (o : Open) (semicolon : Bool) (nodes : List Node) :
    bodyOf nodes ⟨o, semicolon⟩ [] =
      ⟨nodes ++ o.finish.1, o.finish.2, semicolon && o.isGap⟩ := by
  simp [bodyOf, Reading.run, Reading.finish]

/-- Each of the ways in which an item ends makes of it the node that the item makes of itself. -/
theorem ended_shows (ho : o.isGap = false) (h : c.Shows cs tail)
    (hcs : ∀ k ∈ cs.head?, k.endsItem = true) :
    (ended d o c cs).1.cursor.Shows (ended d o c cs).2 tail ∧
      (ended d o c cs).1.outcome (ended d o c cs).2 = bodyOf d.nodes ⟨o, d.semicolon⟩ cs ∧
      (ended d o c cs).1.cursor.advance (source (ended d o c cs).2).length =
        c.advance (source cs).length ∧
      ((ended d o c cs).2 = [] ∨ (tokens (ended d o c cs).2).length < (tokens cs).length) := by
  cases cs with
  | nil =>
    refine ⟨h, ?_, rfl, .inl rfl⟩
    rw [ended, outcome, bodyOf_nil, bodyOf_nil, ho]
    simp [Open.finish]
  | cons k cs =>
    have hk := hcs k rfl
    have hlater := h.later [k]
    cases k with
    | token t =>
      have hkind : t.kind = .semicolon := by simpa [endsItem] using hk
      have htoken : Reading.token ⟨o, d.semicolon⟩ t = (o.semicolon.1, ⟨.gap [], true⟩) := by
        rw [Reading.token, hkind]
        simp [ho, semicolon_of_item ho]
      rw [ended, h.behind_token]
      refine ⟨hlater, ?_, ?_, .inr ?_⟩
      · simp [outcome, bodyOf, Reading.run, htoken]
      · rw [Cursor.advance_advance, source_cons (.token t) cs, List.length_append]
      · simp [tokens]
    | block opener content closer =>
      have hkind : opener.kind = .opening .curly := by simpa [endsItem] using hk
      rw [ended]
      refine ⟨hlater, ?_, ?_, .inr ?_⟩
      · simp [outcome, bodyOf, Reading.run, hkind, Body.ofComponents]
      · rw [Cursor.advance_advance, source_cons (.block opener content closer) cs,
          List.length_append]
      · simp [tokens]
        omega

end Ended

section OfItem

variable {cs : List Component} (hspelled : ∀ t ∈ tokens cs, t.Spelled) (before : Text)

include hspelled

theorem finish_ofItem : (Open.ofItem before [] cs).finish =
    ([plainNode before cs false], Text.blankEnd (source cs)) := by
  unfold Open.ofItem plainNode
  cases hsplit : colonSplit? cs with
  | none => simp [Open.finish]
  | some p =>
    have hsource := source_of_colonSplit? hspelled hsplit
    rw [hsource, Text.blankEnd_append_cons rfl]
    rfl

omit hspelled in
theorem semicolon_ofItem : (Open.ofItem before [] cs).semicolon.1 =
    [plainNode before cs true] := by
  unfold Open.ofItem plainNode
  cases colonSplit? cs <;> simp [Open.semicolon]

theorem block_ofItem (body : Body) : (Open.ofItem before [] cs).block body =
    .block (.style (Text.trimEnd (source cs)))
      ⟨before, Text.blankEnd (source cs), body.after, body.semicolon⟩ body.nodes := by
  unfold Open.ofItem
  cases hsplit : colonSplit? cs with
  | none => simp [Open.block]
  | some p =>
    rw [source_of_colonSplit? hspelled hsplit]
    simp [Open.block]

omit hspelled in
theorem isGap_ofItem : (Open.ofItem before [] cs).isGap = false := by
  unfold Open.ofItem
  cases colonSplit? cs <;> rfl

end OfItem

section Readers

variable {m : Type → Type} [Monad m] [LawfulMonad m] (lapse : (α : Type) → Lapse → α → m α)

/-- The reader gives the body of a block, if there are fewer tokens in it than this. -/
def ReadsBlocks (readBlock : Cursor → m (Body × Cursor)) (size : Nat) : Prop :=
  ∀ (inner : Cursor) (content : List Component) (vs : List Token),
    (tokens content).length < size → inner.Shows content vs →
      readBlock inner = pure (.ofComponents content, inner.advance (source content).length)

variable {readBlock : Cursor → m (Body × Cursor)} {size : Nat} {tail : List Token}
  {item cs : List Component}

theorem block_eq (hread : ReadsBlocks readBlock size) {c : Cursor} {t : Token}
    {content : List Component} {closer : Option Token}
    (h : c.Shows (.block t content closer :: cs) tail)
    (hsize : (tokens (.block t content closer :: cs)).length ≤ size) :
    block lapse readBlock (c.behind t) = pure (.ofComponents content,
      c.advance (source [.block t content closer]).length) := by
  have hlength : (tokens content).length < size := by
    rw [tokens, List.length_cons, List.length_append, List.length_append] at hsize
    omega
  have hinside (inner : Cursor) (vs : List Token) (_ : inner.position = (c.behind t).position)
      (hinner : inner.Shows content vs) := hread inner content vs hlength hinner
  rw [block, h.nested lapse hinside, pure_bind]
  simp [orDefault]

/-- The item is what its components make of it, and it ends as they do. -/
theorem item_eq (hread : ReadsBlocks readBlock size) {d : Draft}
    (h : d.cursor.Shows (item ++ cs) tail) (hitem : ∀ k ∈ item, k.endsItem = false)
    (hcs : ∀ k ∈ cs.head?, k.endsItem = true) (hsize : (tokens cs).length ≤ size) :
    d.item lapse readBlock = pure (ended d (.ofItem d.pending [] item)
      (d.cursor.advance (source item).length) cs).1 := by
  unfold Draft.item
  rw [h.scanItem_eq hitem hcs]
  dsimp only
  rw [h.sliceAt lapse item, pure_bind, Text.cutEnd_eq, pure_bind]
  dsimp only
  rw [Option.none_or]
  cases cs with
  | nil =>
    rw [ended, finish_ofItem (h.spelled item)]
    dsimp only [terminator]
    rw [plain_eq lapse h _ _ [] false rfl, pure_bind]
    rfl
  | cons k cs =>
    cases k with
    | token t =>
      rw [ended, semicolon_ofItem]
      dsimp only [terminator]
      rw [plain_eq lapse h _ _ (Text.blankEnd (source item)) true rfl, pure_bind]
      rfl
    | block opener content closer =>
      rw [ended, block_ofItem (h.spelled item)]
      dsimp only [terminator, Cursor.behindTerminator, first]
      rw [block_eq lapse hread (h.later item) hsize, pure_bind]

theorem atRule_eq (hread : ReadsBlocks readBlock size) (d : Draft) {c : Cursor}
    (h : c.Shows (item ++ cs) tail) (hitem : ∀ k ∈ item, k.endsItem = false)
    (hcs : ∀ k ∈ cs.head?, k.endsItem = true) (hsize : (tokens cs).length ≤ size) (name : Text) :
    d.atRule lapse readBlock name c = pure (ended d (.atRule d.pending name (source item))
      (c.advance (source item).length) cs).1 := by
  unfold Draft.atRule
  rw [h.scanItem_eq hitem hcs]
  dsimp only
  rw [h.sliceAt lapse item, pure_bind, Text.cutStart_eq, pure_bind]
  dsimp only
  rw [Text.cutEnd_eq, pure_bind]
  dsimp only
  cases cs with
  | nil => rfl
  | cons k cs =>
    cases k with
    | token t => rfl
    | block opener content closer =>
      dsimp only [terminator, Cursor.behindTerminator, first]
      rw [block_eq lapse hread (h.later item) hsize, pure_bind]
      rfl

theorem exists_item (cs : List Component) : ∃ item rest, cs = item ++ rest ∧
    (∀ k ∈ item, k.endsItem = false) ∧ ∀ k ∈ rest.head?, k.endsItem = true := by
  refine ⟨cs.takeWhile (!·.endsItem), cs.dropWhile (!·.endsItem),
    List.takeWhile_append_dropWhile.symm, ?_, ?_⟩
  · intro k hk
    simpa using List.mem_takeWhile_imp hk
  · intro k hk
    have := List.head?_dropWhile_not (!·.endsItem) cs
    rw [hk] at this
    simpa using this

theorem ended_continues {d : Draft} {o : Open} {c : Cursor} {cs' : List Component}
    (ho : o.isGap = false) (h : c.Shows cs tail) (hcs : ∀ k ∈ cs.head?, k.endsItem = true)
    (hsize : (tokens cs).length ≤ (tokens cs').length) (hne : cs' ≠ [])
    (hbody : bodyOf d.nodes ⟨o, d.semicolon⟩ cs = d.outcome cs')
    (hcursor : c.advance (source cs).length = d.cursor.advance (source cs').length) :
    Continues d cs' (ended d o c cs).1 (ended d o c cs).2 tail := by
  obtain ⟨hshows, houtcome, hbehind, hfewer⟩ := ended_shows (d := d) ho h hcs
  refine ⟨hshows, ?_, houtcome.trans hbody, hbehind.trans hcursor⟩
  rcases hfewer with hnil | hlt
  · rw [hnil, tokens]
    exact tokens_pos hne
  · exact hlt.trans_le hsize

/-- A turn that comes to an item reads all of it. -/
theorem item_continues (hread : ReadsBlocks readBlock size) {d : Draft}
    (h : d.cursor.Shows cs tail) (hne : cs ≠ []) (hsize : (tokens cs).length ≤ size)
    (hopen : Reading.run ⟨.gap d.pending, d.semicolon⟩ cs =
      Reading.run ⟨.item d.pending [] none, d.semicolon⟩ cs) :
    ∃ d' cs', d.item lapse readBlock = pure d' ∧ Continues d cs d' cs' tail := by
  obtain ⟨item, rest, rfl, hitem, hrest⟩ := exists_item cs
  have hlength : (tokens rest).length ≤ (tokens (item ++ rest)).length := by
    rw [tokens_append, List.length_append]
    omega
  refine ⟨_, _, item_eq lapse hread h hitem hrest (hlength.trans hsize),
    ended_continues (isGap_ofItem _) (h.later item) hrest hlength hne ?_ ?_⟩
  · unfold outcome
    rw [← bodyOf_append (Reading.run_name hitem (h.spelled item) d.pending [] d.semicolon)]
    simp only [bodyOf, hopen]
  · rw [Cursor.advance_advance, source_append, List.length_append]

theorem atRule_continues (hread : ReadsBlocks readBlock size) {d : Draft} {t : Token}
    (h : d.cursor.Shows (.token t :: cs) tail) (hsize : (tokens (.token t :: cs)).length ≤ size)
    (ht : t.role = .atKeyword) :
    ∃ d' cs', d.atRule lapse readBlock (t.source.drop 1) (d.cursor.behind t) = pure d' ∧
      Continues d (.token t :: cs) d' cs' tail := by
  obtain ⟨item, rest, rfl, hitem, hrest⟩ := exists_item cs
  have hbehind := h.later [.token t]
  rw [← h.behind_token] at hbehind
  have hlength : (tokens rest).length ≤ (tokens (.token t :: (item ++ rest))).length := by
    rw [tokens, tokens_append, List.length_cons, List.length_append]
    omega
  refine ⟨_, _, atRule_eq lapse hread d hbehind hitem hrest (hlength.trans hsize) _,
    ended_continues rfl (hbehind.later item) hrest hlength (by simp) ?_ ?_⟩
  · have htoken := Reading.token_gap d.pending d.semicolon t
    rw [ht] at htoken
    have hrun : Reading.run ⟨.gap d.pending, d.semicolon⟩ [.token t] =
        ([], ⟨.atRule d.pending (t.source.drop 1) [], d.semicolon⟩) := by
      simp [Reading.run, htoken]
    have htext := Reading.run_text (o := .atRule d.pending (t.source.drop 1) []) ⟨rfl, rfl⟩ hitem
      (hbehind.spelled item) d.semicolon
    rw [outcome, ← List.singleton_append, bodyOf_append hrun, bodyOf_append htext]
    rfl
  · rw [h.behind_token, Cursor.advance_advance, Cursor.advance_advance,
      source_cons (.token t) (item ++ rest), source_append]
    simp only [List.length_append]

theorem token_continues {d d' : Draft} {t : Token} (h : d.cursor.Shows (.token t :: cs) tail)
    (hcursor : d'.cursor = d.cursor.behind t)
    (hbody : bodyOf d'.nodes ⟨.gap d'.pending, d'.semicolon⟩ cs = d.outcome (.token t :: cs)) :
    Continues d (.token t :: cs) d' cs tail := by
  have hlater := h.later [.token t]
  rw [h.behind_token] at hcursor
  refine ⟨hcursor ▸ hlater, by simp [tokens], hbody, ?_⟩
  rw [hcursor, Cursor.advance_advance, source_cons (.token t) cs, List.length_append]

/-- A component that neither opens an item nor is one is a token. -/
theorem exists_token {c : Cursor} {k : Component} (h : c.Shows (k :: cs) tail)
    (hblock : k.first.role ≠ .block) (hnested : k.first.role ≠ .nested) : ∃ t, k = .token t := by
  cases k with
  | token t => exact ⟨t, rfl⟩
  | block opener content closer =>
    obtain ⟨b, us, vs, -, hopens, -⟩ := h.reads.block_cases
    have hrole := Token.role_of_opens (t := opener) (by simp [hopens])
    split at hrole
    · exact (hblock hrole).elim
    · exact (hnested hrole).elim

/-- A token between two items. -/
theorem step_token (hread : ReadsBlocks readBlock size) {d : Draft} {t : Token}
    (h : d.cursor.Shows (.token t :: cs) tail) (hsize : (tokens (.token t :: cs)).length ≤ size)
    (ht : t.role = .space ∨ t.role = .semicolon ∨ t.role = .comment ∨ t.role = .atKeyword) :
    ∃ d' cs', d.step lapse readBlock = pure (.again d') ∧
      Continues d (.token t :: cs) d' cs' tail := by
  have htoken := Reading.token_gap d.pending d.semicolon t
  have hsource := Token.source_of_role (h.spelled [.token t] t (by simp [tokens]))
  have hslice : d.cursor.text.sliceAt lapse d.cursor.position (d.cursor.behind t).position =
      pure t.source := by
    rw [h.behind_token, h.sliceAt lapse [.token t], source_token]
  unfold step
  rw [h.next_cons]
  dsimp only [first]
  rw [hslice]
  rcases ht with ht | ht | ht | ht
  · rw [ht] at htoken ⊢
    refine ⟨_, cs, pure_bind _ _, token_continues h rfl ?_⟩
    simp [outcome, bodyOf, Reading.run, htoken]
  · rw [ht] at htoken ⊢
    refine ⟨_, cs, pure_bind _ _, token_continues h rfl ?_⟩
    simp [outcome, bodyOf, Reading.run, htoken, hsource.1 ht]
  · rw [ht] at htoken ⊢
    refine ⟨_, cs, pure_bind _ _, token_continues h rfl ?_⟩
    simp [outcome, bodyOf, Reading.run, htoken]
  · obtain ⟨d', cs', hrule, hd'⟩ := atRule_continues lapse hread h hsize ht
    refine ⟨d', cs', ?_, hd'⟩
    rw [ht]
    dsimp only
    rw [pure_bind, hsource.2 ht, Text.behindFirst_eq lapse (by decide), pure_bind, hrule, map_pure]

/-- No turn changes the body to come. -/
theorem step_shows (hread : ReadsBlocks readBlock size) {d : Draft} {cs : List Component}
    (h : d.cursor.Shows cs tail) (hne : cs ≠ []) (hsize : (tokens cs).length ≤ size) :
    ∃ d' cs', d.step lapse readBlock = pure (.again d') ∧ Continues d cs d' cs' tail := by
  obtain ⟨k, cs, rfl⟩ := List.exists_cons_of_ne_nil hne
  cases hrole : k.first.role with
  | colon | block | nested | other =>
    obtain ⟨d', cs', hitem, hd'⟩ := item_continues lapse hread h hne hsize (Reading.run_gap
      (by simp [hrole]) (by simp [hrole]) (by simp [hrole]) (by simp [hrole]) _ _ cs)
    refine ⟨d', cs', ?_, hd'⟩
    unfold step
    rw [h.next_cons]
    dsimp only
    rw [hrole, hitem]
    exact map_pure _ _
  | space | semicolon | comment | atKeyword =>
    obtain ⟨t, rfl⟩ := exists_token h (by simp [hrole]) (by simp [hrole])
    exact step_token lapse hread h hsize (by simp [first] at hrole; simp [hrole])

omit [LawfulMonad m] in
theorem step_nil {d : Draft} (h : d.cursor.Shows [] tail) :
    d.step lapse readBlock = pure (.done (d.outcome [], d.cursor)) := by
  unfold step
  rw [h.next_nil, outcome, bodyOf_nil]
  simp [Open.finish, Open.isGap]

/-- A body is read in as many turns as there are tokens in it and one more. -/
theorem read_eq {turns : Nat} {d : Draft} {cs : List Component} (h : d.cursor.Shows cs tail)
    (hturns : (tokens cs).length < turns) :
    read lapse turns d = pure (d.outcome cs, d.cursor.advance (source cs).length) := by
  induction turns generalizing d cs tail with
  | zero => cases hturns
  | succ turns ih =>
    have hread : ReadsBlocks (fun c => read lapse turns (start c)) turns := by
      intro inner content vs hlength hinner
      exact ih (d := start inner) hinner hlength
    rw [read]
    cases cs with
    | nil =>
      rw [step_nil lapse h, pure_bind, source_nil]
      dsimp only
      rw [List.length_nil, Cursor.advance_zero h.opened]
    | cons k cs =>
      obtain ⟨d', cs', hstep, hd'⟩ :=
        step_shows lapse hread h (by simp) (Nat.le_of_lt_succ hturns)
      rw [hstep, pure_bind]
      dsimp only
      rw [ih hd'.shows (hd'.fewer.trans_le (Nat.le_of_lt_succ hturns)), hd'.outcome, hd'.cursor]

end Readers

end Draft

section Sheets

variable {m : Type → Type} [Monad m] [LawfulMonad m] (lapse : (α : Type) → Lapse → α → m α)

/-- Read from positions a sheet is the one that the components make. -/
theorem Sheet.readAt_eq {turns : Nat} (css : Text) (path : Option Text)
    (hturns : css.length < turns) :
    Sheet.readAt lapse turns css path = pure (Sheet.parse css path) := by
  have hshows := Cursor.shows_start css
  have hread := Draft.read_eq lapse (d := .start (.start css)) hshows
    ((length_tokens_ofText css).trans_lt hturns)
  rw [Sheet.readAt, Draft.bodyAt, hread, pure_bind]
  rfl

end Sheets

end Relength
