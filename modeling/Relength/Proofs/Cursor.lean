import Mathlib.Data.String.Basic
import Relength.Proofs.Lossless

/-!
# A cursor in a text

A text can be read from positions: a `Cursor` stands between two of its characters, gives the token
behind it and moves over that. Positions count bytes (`Cursor.position`), so most numbers are no
position of a text and a piece of it need not be there (`Text.slice?`).

A token that opens a block leaves the block to the reader. Who enters it (`Cursor.enter`) gets a
cursor that finds its end in front of the closer. Who asks for the next token instead passes over
the whole block.

* `Cursor.Reaches`: no move goes back or leaves the text;
* `Cursor.next_precedes`: a token is a move forward.
-/

namespace Relength

open String (utf8Len)

/-! ## Positions -/

namespace Text

/-- The text in front of a position and the text behind it. Inside a character and past the end
there is no position. -/
def cut? : Nat → Text → Option (Text × Text)
  | 0, s => some ([], s)
  | _ + 1, [] => none
  | n + 1, c :: r =>
    if c.utf8Size ≤ n + 1 then (cut? (n + 1 - c.utf8Size) r).map fun p => (c :: p.1, p.2) else none

/-- The piece of a text between two positions. -/
def slice? (i j : Nat) (s : Text) : Option Text :=
  (cut? j s).bind fun p => (cut? i p.1).map Prod.snd

theorem utf8Len_pos {s : Text} (h : s ≠ []) : 0 < utf8Len s :=
  Nat.pos_of_ne_zero fun h0 => h (String.utf8Len_eq_zero.mp h0)

@[simp] theorem cut?_append (a b : Text) : cut? (utf8Len a) (a ++ b) = some (a, b) := by
  induction a with
  | nil => simp [cut?]
  | cons c a ih =>
    obtain ⟨n, hn⟩ := Nat.exists_eq_add_one_of_ne_zero (utf8Len_pos (List.cons_ne_nil c a)).ne'
    have hlen : utf8Len (c :: a) = utf8Len a + c.utf8Size := String.utf8Len_cons c a
    rw [hn, List.cons_append, cut?, if_pos (by omega), show n + 1 - c.utf8Size = utf8Len a by omega,
      ih]
    rfl

theorem slice?_append (a b c : Text) :
    slice? (utf8Len a) (utf8Len (a ++ b)) (a ++ b ++ c) = some b := by
  rw [slice?, cut?_append, Option.bind_some, cut?_append]
  rfl

end Text

/-! ## Blocks among tokens -/

namespace Token

/-- The brackets that are open behind a token, innermost first. -/
def nest (brackets : List Bracket) (t : Token) : List Bracket :=
  match t.opens? with
  | some b => b :: brackets
  | none => if t.closes? = brackets.head? then brackets.tail else brackets

/-- The tokens up to the one that closes the last of the open brackets. -/
def blockSpan (brackets : List Bracket) : List Token → List Token
  | [] => []
  | t :: ts =>
    match nest brackets t with
    | [] => [t]
    | inner => t :: blockSpan inner ts

end Token

/-! ## The cursor and its moves -/

structure Cursor where
  /-- The text in front of the cursor. -/
  passed : Text
  /-- The text behind it. -/
  rest : Text
  /-- The block that the last token has opened, while nobody has entered it. -/
  opened : Option Bracket
  /-- The block that the cursor has entered and stays in. -/
  stop : Option Bracket
  deriving DecidableEq, Repr

namespace Cursor

def start (s : Text) : Cursor := ⟨[], s, none, none⟩

def text (c : Cursor) : Text := c.passed ++ c.rest

def position (c : Cursor) : Nat := utf8Len c.passed

/-- Behind the next `n` characters. -/
def advance (c : Cursor) (n : Nat) : Cursor :=
  ⟨c.passed ++ c.rest.take n, c.rest.drop n, none, c.stop⟩

/-- Behind the block that has been opened and not been entered. -/
def settle (c : Cursor) : Cursor :=
  match c.opened with
  | none => c
  | some b => c.advance (Token.join (Token.blockSpan [b] (Token.tokenize c.rest))).length

/-- Behind a token, which may have opened a block. -/
def behind (c : Cursor) (t : Token) : Cursor :=
  { c.advance t.source.length with opened := t.opens? }

/-- The closer of the block that the cursor has entered comes next. -/
def atCloser (c : Cursor) : Bool :=
  match c.stop, c.rest with
  | some b, d :: _ => d == b.closer
  | _, _ => false

/-- The next token and the cursor behind it. -/
def next (c : Cursor) : Option Token × Cursor :=
  if c.settle.atCloser then (none, c.settle)
  else
    match Token.next? c.settle.rest with
    | none => (none, c.settle)
    | some (t, _) => (some t, c.settle.behind t)

/-- In the block that has been opened. -/
def enter (c : Cursor) (b : Bracket) : Cursor := ⟨c.passed, c.rest, none, some b⟩

/-- Behind the block that has been entered, from a cursor in it. -/
def leave (c inner : Cursor) (b : Bracket) : Cursor :=
  { inner.settle with opened := some b, stop := c.stop }.settle

/-- Only white space and comments are left up to the end. -/
def exhausted (c : Cursor) : Bool :=
  let blanks := (Token.tokenize c.settle.rest).takeWhile fun t =>
    t.kind == .whitespace || t.kind == .comment
  (c.settle.advance (Token.join blanks).length).next.1.isNone

/-! ## No move goes back -/

/-- The second cursor stands where the first one does, or further on in the same text. -/
def Reaches (c c' : Cursor) : Prop := ∃ s, c'.passed = c.passed ++ s ∧ c.rest = s ++ c'.rest

/-- The second cursor stands further on in the same text, at its end at the latest. -/
structure Precedes (c c' : Cursor) : Prop where
  reaches : c.Reaches c'
  later : c.position < c'.position
  inside : c'.position ≤ utf8Len c.text

theorem Reaches.refl (c : Cursor) : c.Reaches c := ⟨[], by simp⟩

theorem Reaches.trans {c c' c'' : Cursor} (h : c.Reaches c') (h' : c'.Reaches c'') :
    c.Reaches c'' := by
  obtain ⟨s, hpassed, hrest⟩ := h
  obtain ⟨s', hpassed', hrest'⟩ := h'
  exact ⟨s ++ s', by simp [hpassed, hpassed'], by simp [hrest, hrest']⟩

theorem Reaches.text_eq {c c' : Cursor} (h : c.Reaches c') : c'.text = c.text := by
  obtain ⟨s, hpassed, hrest⟩ := h
  simp [text, hpassed, hrest]

theorem Reaches.position_le {c c' : Cursor} (h : c.Reaches c') : c.position ≤ c'.position := by
  obtain ⟨s, hpassed, -⟩ := h
  simp [position, hpassed, String.utf8Len_append]

theorem position_le (c : Cursor) : c.position ≤ utf8Len c.text := by
  simp [position, text, String.utf8Len_append]

theorem Reaches.precedes {c c' : Cursor} (h : c.Reaches c') (hlater : c.position < c'.position) :
    c.Precedes c' := ⟨h, hlater, h.text_eq ▸ c'.position_le⟩

theorem Precedes.trans_reaches {c c' c'' : Cursor} (h : c.Precedes c') (h' : c'.Reaches c'') :
    c.Precedes c'' := (h.reaches.trans h').precedes (h.later.trans_le h'.position_le)

theorem reaches_advance (c : Cursor) (n : Nat) : c.Reaches (c.advance n) :=
  ⟨c.rest.take n, rfl, (List.take_append_drop n c.rest).symm⟩

theorem reaches_settle (c : Cursor) : c.Reaches c.settle := by
  unfold settle
  split
  · exact .refl c
  · exact c.reaches_advance _

theorem reaches_next (c : Cursor) : c.Reaches c.next.2 := by
  unfold next
  split
  · exact c.reaches_settle
  · split
    · exact c.reaches_settle
    · exact c.reaches_settle.trans (c.settle.reaches_advance _)

/-- A token is not empty, so the cursor behind it stands further on. -/
theorem next_precedes {c c' : Cursor} {t : Token} (h : c.next = (some t, c')) : c.Precedes c' := by
  have hreaches := c.reaches_next
  rw [h] at hreaches
  unfold next at h
  split at h
  · cases h
  · split at h
    · cases h
    · next rest hnext =>
      cases h
      have hpos := Text.utf8Len_pos (Token.next?_source_ne_nil hnext)
      have hsettle := c.reaches_settle.position_le
      refine hreaches.precedes (hsettle.trans_lt ?_)
      simp [position, behind, advance, ← Token.next?_append hnext, String.utf8Len_append, hpos]

theorem reaches_enter (c : Cursor) (b : Bracket) : c.Reaches (c.enter b) := Reaches.refl c

theorem reaches_leave {c inner : Cursor} (h : c.Reaches inner) (b : Bracket) :
    c.Reaches (c.leave inner b) :=
  (h.trans inner.reaches_settle).trans (reaches_settle _)

end Cursor

end Relength
