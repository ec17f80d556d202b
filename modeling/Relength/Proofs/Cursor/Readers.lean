import Relength.Length.Px
import Relength.Proofs.Cursor

/-!
# Reading from positions

The sheet and the lengths of a text, read with a cursor. Only positions are handed on: the text of
an item is the slice between the positions where it starts and ends, and a length is a pair of
positions.

A slice can be missing and a block can be left before its end. At each such place the readers go
on with a default, which is a `Lapse`. What a lapse does is left open: the readers live in any monad
and are given the effect.

The loops are written turn by turn. A turn ends its loop or gives the state that the next turn
begins with.

* `Cursor.scanItem`: up to the end of an item;
* `Draft.read`, `Sheet.readAt`: the nodes of a body, and a sheet;
* `Search.run`, `replacePxAt`: the positions of the lengths, and a text with them replaced.
-/

namespace Relength

open String (utf8Len)

/-- A place where a reader goes on with a default. -/
inductive Lapse where
  /-- There is no text between two positions. -/
  | slice
  /-- A trimmed text is no part of the text. -/
  | trim
  /-- Nothing stands behind the `@` of an at-rule. -/
  | word
  /-- The colon of a declaration is not in its trimmed text. -/
  | colon
  /-- Nothing stands behind the colon. -/
  | value
  /-- A block is entered that has not been opened. -/
  | opener
  /-- A block is left with something in it unread: what has been read is dropped. -/
  | block
  /-- The turns that a loop has been given are over. -/
  | turns
  deriving DecidableEq, Repr

/-- The end of one turn of a loop. -/
inductive Turn (σ ρ : Type) where
  | again (state : σ)
  | done (result : ρ)

/-- The text behind the last token is the end of an item. -/
inductive Terminator where
  | semicolon | block | finish
  deriving DecidableEq, Repr

/-- The positions of an item. -/
structure Scan where
  /-- The first colon outside blocks. -/
  colon : Option Nat
  terminator : Terminator
  /-- The end of the item, in front of what ends it. -/
  position : Nat
  deriving DecidableEq, Repr

/-- What a token is to an item. -/
inductive Token.Role where
  | space | comment | semicolon | atKeyword | colon | block
  /-- Opens a block that stays in the item. -/
  | nested
  | other
  deriving DecidableEq, Repr

def Token.role (t : Token) : Token.Role :=
  match t.kind with
  | .whitespace => .space
  | .comment => .comment
  | .semicolon => .semicolon
  | .atKeyword _ => .atKeyword
  | .colon => .colon
  | .opening .curly => .block
  | .function _ | .opening _ => .nested
  | _ => .other

namespace Cursor

/-- Behind the block that has been opened, with nothing in it read. -/
def skipNested (c : Cursor) : Cursor :=
  match c.opened with
  | some b => c.leave (c.enter b) b
  | none => c

/-- One token of an item, from the position of the first colon in front of the cursor. -/
def scanStep (colon : Option Nat) (c : Cursor) : Turn (Option Nat × Cursor) (Scan × Cursor) :=
  match c.next with
  | (none, c') => .done (⟨colon, .finish, c.position⟩, c')
  | (some t, c') =>
    match t.role with
    | .semicolon => .done (⟨colon, .semicolon, c.position⟩, c')
    | .block => .done (⟨colon, .block, c.position⟩, c')
    | .colon => .again (colon.or (some c.position), c')
    | .nested => .again (colon, c'.skipNested)
    | _ => .again (colon, c')

theorem reaches_skipNested (c : Cursor) : c.Reaches c.skipNested := by
  unfold skipNested
  split
  · next b _ => exact reaches_leave (c.reaches_enter b) b
  · exact .refl c

/-- Every token of an item is a move forward, those that end it as well. -/
theorem scanStep_moves (colon : Option Nat) (c : Cursor) :
    match c.scanStep colon with
    | .again (_, c') => c.Precedes c'
    | .done (scan, c') =>
      c.Reaches c' ∧ (scan.terminator ≠ .finish → c.Precedes c') ∧
        (scan.terminator = .finish → c.next.1 = none) := by
  have hreaches := c.reaches_next
  unfold scanStep
  cases hnext : c.next with
  | mk token c' =>
    rw [hnext] at hreaches
    cases token with
    | none => exact ⟨hreaches, fun h => (h rfl).elim, fun _ => rfl⟩
    | some t =>
      have hprecedes := next_precedes hnext
      dsimp only
      cases t.role with
      | semicolon | block => exact ⟨hreaches, fun _ => hprecedes, by simp⟩
      | nested => exact hprecedes.trans_reaches c'.reaches_skipNested
      | space | comment | atKeyword | colon | other => exact hprecedes

theorem Precedes.rest_lt {c c' : Cursor} (h : c.Precedes c') :
    utf8Len c'.rest < utf8Len c.rest := by
  have htext := congrArg utf8Len h.reaches.text_eq
  have hlater := h.later
  simp only [Cursor.text, position, String.utf8Len_append] at htext hlater
  omega

/-- The positions of the item behind the cursor, and the cursor behind it. -/
def scanItem (colon : Option Nat) (c : Cursor) : Scan × Cursor :=
  match _h : c.scanStep colon with
  | .again (colon', c') => scanItem colon' c'
  | .done result => result
termination_by utf8Len c.rest
decreasing_by
  have h := c.scanStep_moves colon
  rw [_h] at h
  exact h.rest_lt

end Cursor

section Readers

variable {m : Type → Type} [Monad m] (lapse : (α : Type) → Lapse → α → m α)

/-- A part that should be there; else the reader goes on with a default. -/
def orDefault {α : Type} (place : Lapse) (default : α) (part : Option α) : m α :=
  match part with
  | some a => pure a
  | none => lapse α place default

namespace Text

/-- The piece of a text between two positions. -/
def sliceAt (i j : Nat) (s : Text) : m Text := orDefault lapse .slice [] (slice? i j s)

/-- A text cut at the end of its trimmed text. -/
def cutEnd (s : Text) : m (Text × Text) :=
  orDefault lapse .trim ([], []) (cut? (utf8Len (trimEnd s)) s)

/-- A text cut where its trimmed text starts. -/
def cutStart (s : Text) : m (Text × Text) :=
  orDefault lapse .trim ([], []) (cut? (utf8Len s - utf8Len (trimStart s)) s)

/-- A text without its first byte. -/
def behindFirst (place : Lapse) (s : Text) : m Text :=
  orDefault lapse place [] ((cut? 1 s).map Prod.snd)

end Text

/-- What a reader gets from the block that has been opened, whether it has exhausted the block, and
the cursor behind the block. -/
def Cursor.nested {α : Type} [Inhabited α] (read : Cursor → m (α × Cursor)) (c : Cursor) :
    m ((α × Bool) × Cursor) :=
  match c.opened with
  | none => do
    let result ← lapse (α × Bool) .opener default
    return (result, c)
  | some b => do
    let (a, inner) ← read (c.enter b)
    return ((a, inner.exhausted), c.leave inner b)

/-- A body that is being read from a text. -/
structure Draft where
  nodes : List Node
  /-- The last node that is not a block is followed by `;`. -/
  semicolon : Bool
  /-- Blanks and semicolons for the next node. -/
  pending : Text
  cursor : Cursor

instance : Inhabited Body := ⟨⟨[], [], false⟩⟩

namespace Draft

def start (c : Cursor) : Draft := ⟨[], false, [], c⟩

section Items

variable (readBlock : Cursor → m (Body × Cursor))

/-- The body of the block that has been opened. -/
def block (c : Cursor) : m (Body × Cursor) := do
  let ((body, exhausted), c') ← c.nested lapse readBlock
  let body ← orDefault lapse .block default (if exhausted then some body else none)
  return (body, c')

/-- The declaration of a trimmed text with its first colon at a position. -/
def declaration (text : Text) (colon : Nat) (before trailing : Text) : m Declaration := do
  let (name, back) ← orDefault lapse .colon ([], []) (Text.cut? colon text)
  let (property, nameGap) ← Text.cutEnd lapse name
  let behind ← Text.behindFirst lapse .value back
  let (valueGap, value) ← Text.cutStart lapse behind
  let parts := splitImportant value
  return {
    property := property
    value := parts.1
    important := !parts.2.isEmpty
    before := before
    between := nameGap ++ ':' :: valueGap
    importantTail := parts.2
    trailing := trailing }

/-- The node of an item without a block, from its trimmed text. -/
def plain (d : Draft) (scan : Scan) (text trailing : Text) (terminated : Bool) : m Node :=
  match scan.colon with
  | some colon => do
    let name ← d.cursor.text.sliceAt lapse d.cursor.position colon
    let node ← declaration lapse text (utf8Len name) d.pending trailing
    return .declaration node
  | none => return .other d.pending (text ++ trailing) terminated

/-- The item behind the cursor: a rule, a declaration, or text that is neither. -/
def item (d : Draft) : m Draft := do
  let (scan, c) := d.cursor.scanItem none
  let source ← d.cursor.text.sliceAt lapse d.cursor.position scan.position
  let (text, blanks) ← Text.cutEnd lapse source
  match scan.terminator with
  | .block =>
    let (body, c') ← block lapse readBlock c
    let node := Node.block (.style text) ⟨d.pending, blanks, body.after, body.semicolon⟩ body.nodes
    return ⟨d.nodes ++ [node], d.semicolon, [], c'⟩
  | .semicolon =>
    let node ← d.plain lapse scan text blanks true
    return ⟨d.nodes ++ [node], true, [], c⟩
  | .finish =>
    let node ← d.plain lapse scan text [] false
    return ⟨d.nodes ++ [node], false, blanks, c⟩

/-- The at-rule of this name; `start` is the cursor behind the name. -/
def atRule (d : Draft) (name : Text) (start : Cursor) : m Draft := do
  let (scan, c) := start.scanItem none
  let source ← start.text.sliceAt lapse start.position scan.position
  let (afterName, prelude) ← Text.cutStart lapse source
  let (params, blanks) ← Text.cutEnd lapse prelude
  match scan.terminator with
  | .block =>
    let (body, c') ← block lapse readBlock c
    let spacing : Spacing := ⟨d.pending, blanks, body.after, body.semicolon⟩
    let node := Node.block (.atRule ⟨name, afterName, params⟩) spacing body.nodes
    return ⟨d.nodes ++ [node], d.semicolon, [], c'⟩
  | .semicolon =>
    let node := Node.statement ⟨name, afterName, params⟩ ⟨d.pending, blanks, [], false⟩
    return ⟨d.nodes ++ [node], true, [], c⟩
  | .finish =>
    let node := Node.statement ⟨name, afterName, params⟩ ⟨d.pending, [], [], false⟩
    return ⟨d.nodes ++ [node], false, blanks, c⟩

/-- One turn of reading a body. A token that begins an item is given back: the item is read from
the cursor in front of it. -/
def step (d : Draft) : m (Turn Draft (Body × Cursor)) :=
  match d.cursor.next with
  | (none, c) => return .done (⟨d.nodes, d.pending, d.semicolon⟩, c)
  | (some t, c) =>
    match t.role with
    | .space | .semicolon => do
      let source ← d.cursor.text.sliceAt lapse d.cursor.position c.position
      return .again { d with pending := d.pending ++ source, cursor := c }
    | .comment => do
      let source ← d.cursor.text.sliceAt lapse d.cursor.position c.position
      return .again ⟨d.nodes ++ [.comment d.pending source], d.semicolon, [], c⟩
    | .atKeyword => do
      let source ← d.cursor.text.sliceAt lapse d.cursor.position c.position
      let name ← Text.behindFirst lapse .word source
      .again <$> d.atRule lapse readBlock name c
    | .colon | .block | .nested | .other => .again <$> d.item lapse readBlock

end Items

/-- The body behind the cursor, read in at most so many turns; the blocks in it count theirs
alike. -/
def read : Nat → Draft → m (Body × Cursor)
  | 0, d => do
    let body ← lapse Body .turns default
    return (body, d.cursor)
  | turns + 1, d => do
    match ← d.step lapse fun c => read turns (start c) with
    | .again d' => read turns d'
    | .done result => return result

/-- The body behind a cursor. -/
def bodyAt (turns : Nat) (c : Cursor) : m (Body × Cursor) := read lapse turns (start c)

end Draft

/-- A sheet, read from positions. -/
def Sheet.readAt (turns : Nat) (css : Text) (path : Option Text) : m Sheet := do
  let (body, _) ← Draft.bodyAt lapse turns (.start css)
  return { body with path := path }

/-! ## Lengths -/

/-- Where a length starts and where it ends. -/
abbrev Span := Nat × Nat

/-- The lengths found so far, and the cursor. -/
structure Search where
  spans : List Span
  cursor : Cursor

namespace Search

/-- One token. A block is searched, but for that of a url. -/
def step (searchBlock : Search → m (List Span × Cursor)) (s : Search) :
    m (Turn Search (List Span × Cursor)) :=
  match s.cursor.next with
  | (none, c) => return .done (s.spans, c)
  | (some t, c) =>
    if t.isPx then return .again ⟨s.spans ++ [(s.cursor.position, c.position)], c⟩
    else if t.opensUrl then return .again ⟨s.spans, c.skipNested⟩
    else if t.opens?.isSome then do
      let ((spans, _), c') ← c.nested lapse fun inner => searchBlock ⟨s.spans, inner⟩
      return .again ⟨spans, c'⟩
    else return .again ⟨s.spans, c⟩

/-- The lengths up to the end, found in at most so many turns; the blocks count theirs alike. -/
def run : Nat → Search → m (List Span × Cursor)
  | 0, s => do
    let spans ← lapse (List Span) .turns default
    return (spans, s.cursor)
  | turns + 1, s => do
    match ← s.step lapse (run turns) with
    | .again s' => run turns s'
    | .done result => return result

end Search

/-- The positions of the lengths in a text, from left to right. -/
def pxSpansAt (turns : Nat) (s : Text) : m (List Span) := do
  let (spans, _) ← Search.run lapse turns ⟨[], .start s⟩
  return spans

section Replace

variable (f : Text → m Text) (s : Text)

/-- Copies a text up to a length and puts other text in the place of the length. The pair is what
has been written and the position up to which the text has been copied. -/
def replaceSpan (written : Text × Nat) (span : Span) : m (Text × Nat) := do
  let source ← s.sliceAt lapse span.1 span.2
  if px.isSuffixOf source then
    let between ← s.sliceAt lapse written.2 span.1
    let new ← f (source.take (source.length - px.length))
    return (written.1 ++ between ++ new, span.2)
  else return written

/-- A text with its lengths replaced at their positions, by their numbers. -/
def replacePxAt : m Text := do
  if hasPxText s then
    let spans ← pxSpansAt lapse (s.length + 1) s
    if spans.isEmpty then return s
    let (out, copied) ← spans.foldlM (replaceSpan lapse f s) ([], 0)
    let back ← s.sliceAt lapse copied (utf8Len s)
    return out ++ back
  else return s

end Replace

end Readers

end Relength
