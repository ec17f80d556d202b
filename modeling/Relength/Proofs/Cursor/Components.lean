import Relength.Proofs.Cursor.Readers
import Relength.Proofs.Locality.Tokens

/-!
# A cursor goes through components

The bracket matcher reads all tokens in one pass and keeps a stack. A cursor knows the innermost
open block only, and a block is read by a cursor of its own. `Component.Reads` says in the manner of
the cursor which components some tokens are, one block inside the other, and the matcher agrees
(`Component.reads_ofTokens`).

`Cursor.Shows` ties a cursor to the components in front of it. Each component is a token or a block
to the cursor, and the cursor behind it shows the others.
-/

namespace Relength

open String (utf8Len)

theorem Token.opens?_of_closes {t : Token} {b : Bracket} (h : t.closes? = some b) :
    t.opens? = none := by
  rw [opens?, closes?_eq_some_iff.mp h]

namespace Component

@[simp] theorem source_nil : source [] = [] := by
  rw [source, tokens]
  rfl

@[simp] theorem source_token (t : Token) : source [.token t] = t.source := by
  rw [source, tokens, tokens, Token.join_singleton]

theorem source_cons (k : Component) (cs : List Component) :
    source (k :: cs) = source [k] ++ source cs := source_append [k] cs

theorem tokens_pos {cs : List Component} (h : cs ≠ []) : 0 < (tokens cs).length := by
  obtain ⟨k, cs, rfl⟩ := List.exists_cons_of_ne_nil h
  cases k <;> simp [tokens]

/-- The token that a component begins with. -/
def first : Component → Token
  | token t => t
  | block opener _ _ => opener

/-- The components that some tokens are, up to the closer of the block that they stand in, and the
tokens from the closer on. -/
inductive Reads : Option Bracket → List Token → List Component → List Token → Prop
  | ended (stop : Option Bracket) : Reads stop [] [] []
  | closed {b : Bracket} {t : Token} (ts : List Token) (hcloses : t.closes? = some b) :
    Reads (some b) (t :: ts) [] (t :: ts)
  | token {stop : Option Bracket} {t : Token} {ts tail : List Token} {cs : List Component}
    (hopens : t.opens? = none) (hcloses : ∀ b ∈ stop, t.closes? ≠ some b)
    (hrest : Reads stop ts cs tail) : Reads stop (t :: ts) (.token t :: cs) tail
  | block {stop : Option Bracket} {t closer : Token} {b : Bracket} {ts ts' tail : List Token}
    {content cs : List Component} (hopens : t.opens? = some b)
    (hinner : Reads (some b) ts content (closer :: ts')) (hrest : Reads stop ts' cs tail) :
    Reads stop (t :: ts) (.block t content (some closer) :: cs) tail
  | unclosed {stop : Option Bracket} {t : Token} {b : Bracket} {ts : List Token}
    {content : List Component} (hopens : t.opens? = some b)
    (hinner : Reads (some b) ts content []) : Reads stop (t :: ts) [.block t content none] []

variable {stop : Option Bracket} {ts tail : List Token} {cs : List Component}

theorem Reads.tokens_append (h : Reads stop ts cs tail) : tokens cs ++ tail = ts := by
  induction h with
  | ended => simp [tokens]
  | closed => simp [tokens]
  | token hopens hcloses _ ih => rw [tokens, List.cons_append, ih]
  | block hopens _ _ ih₁ ih₂ => simp [tokens, ← ih₁, ← ih₂]
  | unclosed hopens _ ih => simp [tokens, ← ih]

/-- What is left begins with the closer. -/
theorem Reads.closes_tail {t : Token} (h : Reads stop ts cs (t :: tail)) :
    ∃ b, stop = some b ∧ t.closes? = some b := by
  generalize hus : t :: tail = us at h
  induction h with
  | ended => cases hus
  | closed _ hcloses =>
    cases hus
    exact ⟨_, rfl, hcloses⟩
  | token _ _ _ ih => exact ih hus
  | block _ _ _ _ ih => exact ih hus
  | unclosed => cases hus

theorem Reads.token_cases {t : Token} (h : Reads stop ts (.token t :: cs) tail) :
    ∃ us, ts = t :: us ∧ t.opens? = none ∧ (∀ b ∈ stop, t.closes? ≠ some b) ∧
      Reads stop us cs tail := by
  cases h with
  | token hopens hcloses hrest => exact ⟨_, rfl, hopens, hcloses, hrest⟩

/-- A block is left at its closer, or at the end. -/
theorem Reads.block_cases {t : Token} {content : List Component} {closer : Option Token}
    (h : Reads stop ts (.block t content closer :: cs) tail) :
    ∃ b us vs, ts = t :: us ∧ t.opens? = some b ∧ Reads (some b) us content (closer.toList ++ vs) ∧
      (∀ u ∈ closer, u.closes? = some b) ∧ (closer = none → vs = []) ∧ Reads stop vs cs tail := by
  cases h with
  | block hopens hinner hrest =>
    refine ⟨_, _, _, rfl, hopens, hinner, ?_, by simp, hrest⟩
    obtain ⟨b, hb, hcloses⟩ := hinner.closes_tail
    cases hb
    simpa using hcloses
  | unclosed hopens hinner =>
    exact ⟨_, _, [], rfl, hopens, hinner, by simp, fun _ => rfl, .ended stop⟩

/-- Reading goes on behind any of the components. -/
theorem Reads.later {item : List Component} (h : Reads stop ts (item ++ cs) tail) :
    ∃ us, ts = tokens item ++ us ∧ Reads stop us cs tail := by
  induction item generalizing ts with
  | nil => exact ⟨ts, by simp [tokens], h⟩
  | cons k item ih =>
    cases k with
    | token t =>
      obtain ⟨us, rfl, -, -, hus⟩ := h.token_cases
      obtain ⟨vs, rfl, hvs⟩ := ih hus
      exact ⟨vs, by simp [tokens], hvs⟩
    | block t content closer =>
      obtain ⟨b, us, vs, rfl, -, hcontent, -, -, hvs⟩ := h.block_cases
      obtain ⟨ws, rfl, hws⟩ := ih hvs
      exact ⟨ws, by simp [tokens, ← hcontent.tokens_append], hws⟩

theorem exists_reads (stop : Option Bracket) (ts : List Token) :
    ∃ cs tail, Reads stop ts cs tail := by
  induction hn : ts.length using Nat.strong_induction_on generalizing stop ts with
  | _ n ih =>
    subst hn
    cases ts with
    | nil => exact ⟨[], [], .ended stop⟩
    | cons t ts =>
      have hrest (us : List Token) (stop : Option Bracket) (hlength : us.length ≤ ts.length) :=
        ih us.length (by simpa using Nat.lt_succ_of_le hlength) stop us rfl
      cases hopens : t.opens? with
      | some b =>
        obtain ⟨content, inner, hinner⟩ := hrest ts (some b) le_rfl
        cases inner with
        | nil => exact ⟨_, _, .unclosed hopens hinner⟩
        | cons closer ts' =>
          have hlength := congrArg List.length hinner.tokens_append
          obtain ⟨cs, tail, hcs⟩ := hrest ts' stop (by simp at hlength; omega)
          exact ⟨_, _, .block hopens hinner hcs⟩
      | none =>
        by_cases hcloses : ∃ b ∈ stop, t.closes? = some b
        · obtain ⟨b, rfl, hb⟩ := hcloses
          exact ⟨[], _, .closed ts hb⟩
        · obtain ⟨cs, tail, hcs⟩ := hrest ts stop le_rfl
          exact ⟨_, _, .token hopens (by simpa using hcloses) hcs⟩

namespace Nesting

theorem step_opens {n : Nesting} {t : Token} {b : Bracket} (h : t.opens? = some b) :
    n.step t = ⟨[], ⟨n.done, t, b⟩ :: n.frames⟩ := by
  rw [step, h]

theorem step_token {n : Nesting} {t : Token} (hopens : t.opens? = none)
    (hcloses : ∀ b ∈ n.frames.head?.map Frame.bracket, t.closes? ≠ some b) :
    n.step t = n.add (.token t) := by
  obtain ⟨done, frames⟩ := n
  rw [step, hopens]
  cases frames with
  | nil => rfl
  | cons f frames => exact if_neg (hcloses f.bracket (by simp))

theorem step_closes {done before : List Component} {opener closer : Token} {b : Bracket}
    {frames : List Frame} (h : closer.closes? = some b) :
    step ⟨done, ⟨before, opener, b⟩ :: frames⟩ closer =
      ⟨.block opener done.reverse (some closer) :: before, frames⟩ := by
  rw [step, Token.opens?_of_closes h]
  exact if_pos h

end Nesting

/-- Reading to the closer of the innermost block adds the components to that block. -/
theorem Reads.finish_foldl (h : Reads stop ts cs tail) (n : Nesting)
    (hstop : n.frames.head?.map Frame.bracket = stop) :
    (ts.foldl Nesting.step n).finish =
      (tail.foldl Nesting.step ⟨cs.reverse ++ n.done, n.frames⟩).finish := by
  induction h generalizing n with
  | ended => rfl
  | closed => rfl
  | @token stop t ts tail cs hopens hcloses _ ih =>
    rw [List.foldl_cons, Nesting.step_token hopens (hstop ▸ hcloses), ih (n.add (.token t)) hstop]
    simp [Nesting.add]
  | @block stop t closer b ts ts' tail content cs hopens hinner _ ih₁ ih₂ =>
    obtain ⟨b', hb', hcloses⟩ := hinner.closes_tail
    cases hb'
    rw [List.foldl_cons, Nesting.step_opens hopens, ih₁ _ rfl, List.foldl_cons,
      Nesting.step_closes hcloses]
    simpa using ih₂ ⟨.block t content (some closer) :: n.done, n.frames⟩ hstop
  | @unclosed stop t b ts content hopens _ ih =>
    rw [List.foldl_cons, Nesting.step_opens hopens, ih _ rfl]
    simp [Nesting.finish]

/-- Reading block by block gives the components that the matcher gives. -/
theorem reads_ofTokens (ts : List Token) : Reads none ts (ofTokens ts) [] := by
  obtain ⟨cs, tail, h⟩ := exists_reads none ts
  have htail : tail = [] := by
    cases tail with
    | nil => rfl
    | cons t tail =>
      obtain ⟨b, hb, -⟩ := h.closes_tail
      cases hb
  have hcs : ofTokens ts = cs := by
    rw [ofTokens, h.finish_foldl .start rfl, htail]
    simp [Nesting.start, Nesting.finish]
  rwa [hcs, ← htail]

theorem length_tokens_ofText (s : Text) : (tokens (ofText s)).length ≤ s.length := by
  rw [ofText, tokens_ofTokens]
  fun_induction Token.tokenize s with
  | case1 => simp
  | case2 s t rest h ih =>
    have hlt := Token.next?_length_lt h
    rw [List.length_cons]
    omega

end Component

namespace Token

theorem nest_opens {t : Token} {b : Bracket} (h : t.opens? = some b) (bs : List Bracket) :
    nest bs t = b :: bs := by
  rw [nest, h]

theorem nest_closes {t : Token} {b : Bracket} (h : t.closes? = some b) (bs : List Bracket) :
    nest (b :: bs) t = bs := by
  rw [nest, opens?_of_closes h]
  exact if_pos h

theorem nest_other {t : Token} {b : Bracket} (hopens : t.opens? = none)
    (hcloses : t.closes? ≠ some b) (bs : List Bracket) : nest (b :: bs) t = b :: bs := by
  rw [nest, hopens]
  exact if_neg hcloses

theorem blockSpan_cons {bs : List Bracket} {t : Token} (h : nest bs t ≠ []) (ts : List Token) :
    blockSpan bs (t :: ts) = t :: blockSpan (nest bs t) ts := by
  rw [blockSpan]
  split
  · next hnil => exact (h hnil).elim
  · rfl

/-- The tokens of the components of a block are in the block, and the block reaches further. -/
theorem blockSpan_reads {stop : Option Bracket} {ts tail : List Token} {cs : List Component}
    (h : Component.Reads stop ts cs tail) {b : Bracket} (hb : stop = some b) (bs : List Bracket) :
    blockSpan (b :: bs) ts = Component.tokens cs ++ blockSpan (b :: bs) tail := by
  induction h generalizing b bs with
  | ended => simp [Component.tokens, blockSpan]
  | closed => simp [Component.tokens]
  | token hopens hcloses _ ih =>
    have hnest := nest_other hopens (hcloses b hb) bs
    rw [blockSpan_cons (by simp [hnest]), hnest, ih hb, Component.tokens, List.cons_append]
  | @block _ t closer b' _ _ _ _ _ hopens hinner _ ih₁ ih₂ =>
    obtain ⟨b'', hb'', hcloses⟩ := hinner.closes_tail
    cases hb''
    have hnest := nest_opens hopens (b :: bs)
    have hnest' := nest_closes hcloses (b :: bs)
    rw [blockSpan_cons (by simp [hnest]), hnest, ih₁ rfl, blockSpan_cons (by simp [hnest']),
      hnest', ih₂ hb]
    simp [Component.tokens]
  | unclosed hopens _ ih =>
    have hnest := nest_opens hopens (b :: bs)
    rw [blockSpan_cons (by simp [hnest]), hnest, ih rfl]
    simp [Component.tokens, blockSpan]

theorem next?_of_tokenize {s : Text} {t : Token} {ts : List Token} (h : tokenize s = t :: ts) :
    ∃ r, next? s = some (t, r) ∧ tokenize r = ts := by
  rw [tokenize] at h
  split at h
  · cases h
  · next t' r hnext =>
    cases h
    exact ⟨r, hnext, rfl⟩

/-- The text behind some tokens is read as the tokens behind them. -/
theorem tokenize_drop {s : Text} (ts : List Token) {tail : List Token}
    (h : tokenize s = ts ++ tail) :
    tokenize (s.drop (join ts).length) = tail := by
  induction ts generalizing s with
  | nil => exact h
  | cons t ts ih =>
    obtain ⟨r, hnext, hr⟩ := next?_of_tokenize h
    rw [← next?_append hnext, join_cons, List.length_append, ← List.drop_drop, List.drop_left,
      ih hr]

theorem next?_closer (b : Bracket) (r : Text) :
    next? (b.closer :: r) = some (⟨.closing b, [b.closer]⟩, r) := by
  cases b <;> exact next?_stop rfl r

end Token

/-- A piece of a text is there, between its positions. -/
theorem Text.sliceAt_eq {m : Type → Type} [Monad m] (lapse : (α : Type) → Lapse → α → m α)
    {s a b c : Text} (hs : s = a ++ b ++ c) :
    s.sliceAt lapse (utf8Len a) (utf8Len (a ++ b)) = pure b := by
  rw [hs, sliceAt, slice?_append]
  rfl

namespace Cursor

variable {c : Cursor} {t : Token} {b : Bracket} {content cs : List Component}
  {closer : Option Token} {tail : List Token}

/-- The components behind a cursor, and the tokens behind them. -/
structure Shows (c : Cursor) (cs : List Component) (tail : List Token) : Prop where
  opened : c.opened = none
  reads : Component.Reads c.stop (Token.tokenize c.rest) cs tail

theorem shows_start (s : Text) : (start s).Shows (Component.ofText s) [] :=
  ⟨rfl, Component.reads_ofTokens _⟩

theorem advance_advance (c : Cursor) (m n : Nat) :
    (c.advance m).advance n = c.advance (m + n) := by
  simp [advance, List.take_add]

theorem settle_of_none (h : c.opened = none) : c.settle = c := by
  rw [settle, h]

theorem advance_zero (h : c.opened = none) : c.advance 0 = c := by
  obtain ⟨passed, rest, opened, stop⟩ := c
  cases h
  simp [advance]

theorem next?_of_atCloser (h : c.atCloser = true) :
    ∃ b r, c.stop = some b ∧ Token.next? c.rest = some (⟨.closing b, [b.closer]⟩, r) := by
  unfold atCloser at h
  split at h
  · next b d r hstop hrest =>
    refine ⟨b, r, hstop, ?_⟩
    rw [hrest, beq_iff_eq.mp h, Token.next?_closer]
  · cases h

theorem atCloser_of_closes {ts : List Token} (hstop : c.stop = some b)
    (hrest : Token.tokenize c.rest = t :: ts) (hcloses : t.closes? = some b) :
    c.atCloser = true := by
  have hspelled := Token.spelled_tokenize c.rest t (by simp [hrest])
  have htext := Token.join_tokenize c.rest
  rw [Token.Spelled, Token.closes?_eq_some_iff.mp hcloses] at hspelled
  rw [hrest, Token.join_cons, hspelled] at htext
  simp [atCloser, hstop, ← htext]

/-- No token is left. -/
theorem Shows.next_nil (h : c.Shows [] tail) : c.next = (none, c) := by
  have htokens := h.reads.tokens_append
  rw [Component.tokens, List.nil_append] at htokens
  unfold next
  rw [settle_of_none h.opened]
  cases tail with
  | nil =>
    have hrest : c.rest = [] := by rw [← Token.join_tokenize c.rest, ← htokens]; rfl
    rw [hrest, if_neg (by simp [atCloser, hrest])]
    rfl
  | cons t tail =>
    obtain ⟨b, hstop, hcloses⟩ := h.reads.closes_tail
    rw [if_pos (atCloser_of_closes hstop htokens.symm hcloses)]

theorem next_of_tokenize {ts : List Token} (hopened : c.opened = none)
    (hrest : Token.tokenize c.rest = t :: ts) (hcloses : ∀ b ∈ c.stop, t.closes? ≠ some b) :
    c.next = (some t, c.behind t) := by
  obtain ⟨r, hnext, -⟩ := Token.next?_of_tokenize hrest
  unfold next
  rw [settle_of_none hopened, if_neg, hnext]
  intro hat
  obtain ⟨b, r', hstop, hcloser⟩ := next?_of_atCloser hat
  rw [hcloser] at hnext
  cases hnext
  exact hcloses b hstop rfl

/-- The next token is the first one of the next component. -/
theorem Shows.next_cons {k : Component} (h : c.Shows (k :: cs) tail) :
    c.next = (some k.first, c.behind k.first) := by
  cases k with
  | token t =>
    obtain ⟨us, hts, -, hcloses, -⟩ := h.reads.token_cases
    exact next_of_tokenize h.opened hts hcloses
  | block t content closer =>
    obtain ⟨b, us, vs, hts, hopens, -⟩ := h.reads.block_cases
    refine next_of_tokenize h.opened hts fun b' _ hcloses => ?_
    cases hopens.symm.trans (Token.opens?_of_closes hcloses)

theorem Shows.behind_token (h : c.Shows (.token t :: cs) tail) :
    c.behind t = c.advance (Component.source [.token t]).length := by
  obtain ⟨us, -, hopens, -⟩ := h.reads.token_cases
  rw [Component.source_token, behind, hopens]
  rfl

theorem Shows.rest_eq (h : c.Shows cs tail) :
    c.rest = Component.source cs ++ Token.join tail := by
  rw [Component.source, ← Token.join_append, h.reads.tokens_append, Token.join_tokenize]

theorem Shows.spelled (item : List Component) (h : c.Shows (item ++ cs) tail) :
    ∀ t ∈ Component.tokens item, t.Spelled := by
  intro t ht
  refine Token.spelled_tokenize c.rest t ?_
  rw [← h.reads.tokens_append, Component.tokens_append, List.append_assoc]
  exact List.mem_append_left _ ht

theorem position_advance {a r : Text} (h : c.rest = a ++ r) :
    (c.advance a.length).position = c.position + utf8Len a := by
  simp [position, advance, h, String.utf8Len_append]

theorem Shows.position_advance (item : List Component) (h : c.Shows (item ++ cs) tail) :
    (c.advance (Component.source item).length).position =
      c.position + utf8Len (Component.source item) := by
  refine Cursor.position_advance (r := Component.source cs ++ Token.join tail) ?_
  rw [h.rest_eq, Component.source_append, List.append_assoc]

/-- A token moves the cursor by its bytes. -/
theorem Shows.position_behind {k : Component} (h : c.Shows (k :: cs) tail) :
    (c.behind k.first).position = c.position + utf8Len k.first.source := by
  have hrest : ∃ r, c.rest = k.first.source ++ r := by
    rw [h.rest_eq, Component.source]
    cases k <;> exact ⟨_, by rw [Component.tokens, Token.join_cons, List.append_assoc]; rfl⟩
  obtain ⟨r, hr⟩ := hrest
  exact Cursor.position_advance hr

/-- The text of the components is there, between the positions where they start and end. -/
theorem Shows.sliceAt {m : Type → Type} [Monad m] (lapse : (α : Type) → Lapse → α → m α)
    (item : List Component) (h : c.Shows (item ++ cs) tail) :
    c.text.sliceAt lapse c.position (c.advance (Component.source item).length).position =
      pure (Component.source item) := by
  have hrest := h.rest_eq
  rw [Component.source_append, List.append_assoc] at hrest
  rw [position, position, advance, hrest, List.take_left]
  exact Text.sliceAt_eq lapse (by rw [text, hrest, List.append_assoc])

/-- The cursor behind some components shows the components behind them. -/
theorem Shows.later (item : List Component) (h : c.Shows (item ++ cs) tail) :
    (c.advance (Component.source item).length).Shows cs tail := by
  obtain ⟨us, hts, hus⟩ := h.reads.later
  rw [← Token.tokenize_drop _ hts] at hus
  exact ⟨rfl, hus⟩

theorem Shows.last (h : c.Shows cs tail) :
    (c.advance (Component.source cs).length).Shows [] tail := by
  rw [← List.append_nil cs] at h
  exact h.later cs

theorem Shows.exhausted (h : c.Shows [] tail) : c.exhausted = true := by
  have hblanks : (Token.tokenize c.rest).takeWhile
      (fun t => t.kind == .whitespace || t.kind == .comment) = [] := by
    rw [← h.reads.tokens_append, Component.tokens, List.nil_append]
    cases tail with
    | nil => rfl
    | cons t tail =>
      obtain ⟨b, -, hcloses⟩ := h.reads.closes_tail
      exact List.takeWhile_cons_of_neg (by simp [Token.closes?_eq_some_iff.mp hcloses])
  unfold Cursor.exhausted
  rw [settle_of_none h.opened, hblanks]
  simp [Token.join, advance_zero h.opened, h.next_nil]

/-- What is left of a block is its tokens up to the closer. -/
theorem leave_of_span {inner : Cursor} {ts : List Token} (hopened : inner.opened = none)
    (h : Token.blockSpan [b] (Token.tokenize inner.rest) = ts) :
    c.leave inner b = { inner.advance (Token.join ts).length with stop := c.stop } := by
  rw [leave, settle_of_none hopened, settle]
  dsimp only
  rw [h]
  rfl

/-- A block that has been opened is passed over, or entered, read to its end and left: it makes no
difference to the cursor behind it. -/
theorem Shows.enter (h : c.Shows (.block t content closer :: cs) tail) :
    ∃ b vs, t.opens? = some b ∧ ((c.behind t).enter b).Shows content vs ∧
      (c.behind t).leave ((c.behind t).enter b) b =
        c.advance (Component.source [.block t content closer]).length ∧
      (c.behind t).leave
          (((c.behind t).enter b).advance (Component.source content).length) b =
        c.advance (Component.source [.block t content closer]).length := by
  obtain ⟨b, us, vs, hts, hopens, hcontent, hcloser, hnone, -⟩ := h.reads.block_cases
  have hrest : Token.tokenize (c.rest.drop t.source.length) = us := by
    have hdrop := Token.tokenize_drop [t] hts
    rwa [Token.join_singleton] at hdrop
  have hend : Token.blockSpan [b] (closer.toList ++ vs) = closer.toList := by
    cases closer with
    | none => simp [hnone rfl, Token.blockSpan]
    | some u => simp [Token.blockSpan, Token.nest_closes (hcloser u rfl)]
  have hspan : Token.blockSpan [b] us = Component.tokens content ++ closer.toList := by
    rw [Token.blockSpan_reads hcontent rfl, hend]
  have hrest' : Token.tokenize ((c.rest.drop t.source.length).drop
      (Component.source content).length) = closer.toList ++ vs :=
    Token.tokenize_drop _ (hrest.trans hcontent.tokens_append.symm)
  refine ⟨b, closer.toList ++ vs, hopens, ⟨rfl, hrest ▸ hcontent⟩, ?_, ?_⟩
  · rw [leave_of_span rfl (hrest.symm ▸ hspan)]
    simp [Cursor.enter, behind, advance, List.take_add, Component.source, Component.tokens]
  · rw [leave_of_span rfl (hrest'.symm ▸ hend)]
    simp [Cursor.enter, behind, advance, List.take_add, Component.source, Component.tokens,
      Token.join_append, Nat.add_assoc]

theorem Shows.skipNested (h : c.Shows (.block t content closer :: cs) tail) :
    (c.behind t).skipNested = c.advance (Component.source [.block t content closer]).length := by
  obtain ⟨b, vs, hopens, -, hleave, -⟩ := h.enter
  have hopened : (c.behind t).opened = some b := hopens
  rw [Cursor.skipNested, hopened]
  exact hleave

/-- A reader that gets to the end of every block exhausts this one. -/
theorem Shows.nested {m : Type → Type} [Monad m] [LawfulMonad m]
    (lapse : (α : Type) → Lapse → α → m α) {α : Type} [Inhabited α] {a : α}
    {read : Cursor → m (α × Cursor)} (h : c.Shows (.block t content closer :: cs) tail)
    (hread : ∀ inner vs, inner.position = (c.behind t).position → inner.Shows content vs →
      read inner = pure (a, inner.advance (Component.source content).length)) :
    (c.behind t).nested lapse read = pure ((a, true),
      c.advance (Component.source [.block t content closer]).length) := by
  obtain ⟨b, vs, hopens, hinner, -, hleave⟩ := h.enter
  have hopened : (c.behind t).opened = some b := hopens
  rw [Cursor.nested, hopened]
  dsimp only
  rw [hread ((c.behind t).enter b) vs rfl hinner, pure_bind]
  dsimp only
  rw [hinner.last.exhausted, hleave]

end Cursor

end Relength
