import Relength.Token.Scan

/-!
# Components: tokens with their blocks matched

`Component.ofTokens` groups a flat list of tokens into nested blocks in one pass over the tokens, with the open
blocks kept on a stack. A closing token ends the innermost open block if it has that block's bracket, and is an
ordinary token otherwise; the end of the list ends every open block.

* `tokens_ofTokens`: the tokens of the components are the tokens that were grouped.
-/

namespace Relength

inductive Component where
  | token (t : Token)
  /-- A block from its opening token on. Without a closing token it reaches to the end of the text. -/
  | block (opener : Token) (content : List Component) (closer : Option Token)

namespace Component

/-- The tokens of components, brackets included, in source order. -/
def tokens : List Component → List Token
  | [] => []
  | .token t :: rest => t :: tokens rest
  | .block opener content closer :: rest => opener :: (tokens content ++ closer.toList ++ tokens rest)

def source (cs : List Component) : Text := Token.join (tokens cs)

/-- A block that is open: what stands in front of it, last first, and how it began. -/
structure Frame where
  before : List Component
  opener : Token
  bracket : Bracket

/-- The blocks open at a point of the token list, innermost first, and the components read so far in the
innermost one, last first. -/
structure Nesting where
  done : List Component
  frames : List Frame

namespace Nesting

def start : Nesting := ⟨[], []⟩

def add (n : Nesting) (c : Component) : Nesting := ⟨c :: n.done, n.frames⟩

/-- The innermost block ends here. -/
def close (n : Nesting) (closer : Option Token) : Nesting :=
  match n.frames with
  | [] => n
  | f :: frames => ⟨.block f.opener n.done.reverse closer :: f.before, frames⟩

def step (n : Nesting) (t : Token) : Nesting :=
  match t.opens? with
  | some b => ⟨[], ⟨n.done, t, b⟩ :: n.frames⟩
  | none =>
    match n.frames with
    | [] => n.add (.token t)
    | f :: _ => if t.closes? = some f.bracket then n.close (some t) else n.add (.token t)

/-- The components when the tokens end here. -/
def finish (n : Nesting) : List Component :=
  n.frames.foldl (fun inner f => .block f.opener inner.reverse none :: f.before) n.done |>.reverse

end Nesting

def ofTokens (ts : List Token) : List Component := (ts.foldl Nesting.step .start).finish

def ofText (s : Text) : List Component := ofTokens (Token.tokenize s)

theorem tokens_append (a b : List Component) : tokens (a ++ b) = tokens a ++ tokens b := by
  fun_induction tokens a with
  | case1 => rfl
  | case2 t rest ih => simp [tokens, ih]
  | case3 opener content closer rest ih₁ ih₂ => simp [tokens, ih₂]

/-- The tokens that led to a nesting. -/
def Nesting.tokens (n : Nesting) : List Token :=
  n.frames.foldl (fun ts f => Component.tokens f.before.reverse ++ f.opener :: ts)
    (Component.tokens n.done.reverse)

theorem foldl_frames (frames : List Frame) (ts us : List Token) :
    frames.foldl (fun ts f => tokens f.before.reverse ++ f.opener :: ts) (ts ++ us) =
      frames.foldl (fun ts f => tokens f.before.reverse ++ f.opener :: ts) ts ++ us := by
  induction frames generalizing ts with
  | nil => rfl
  | cons f frames ih =>
    rw [List.foldl_cons, List.foldl_cons, ← ih]
    congr 1
    simp

theorem Nesting.tokens_add (n : Nesting) (t : Token) : (n.add (.token t)).tokens = n.tokens ++ [t] := by
  simp only [Nesting.tokens, Nesting.add, List.reverse_cons, tokens_append, Component.tokens]
  exact foldl_frames n.frames _ [t]

theorem Nesting.tokens_step (n : Nesting) (t : Token) : (n.step t).tokens = n.tokens ++ [t] := by
  obtain ⟨done, frames⟩ := n
  unfold Nesting.step
  split
  · simp only [Nesting.tokens, List.foldl_cons, List.reverse_nil, Component.tokens]
    exact foldl_frames frames _ [t]
  · cases frames with
    | nil => exact Nesting.tokens_add _ t
    | cons f frames =>
      dsimp only
      split
      · simp only [Nesting.tokens, Nesting.close, List.foldl_cons, List.reverse_cons, tokens_append,
          Component.tokens, Option.toList]
        rw [← foldl_frames]
        congr 1
        simp
      · exact Nesting.tokens_add _ t

theorem Nesting.tokens_finish (n : Nesting) : Component.tokens n.finish = n.tokens := by
  obtain ⟨done, frames⟩ := n
  simp only [Nesting.finish, Nesting.tokens]
  induction frames generalizing done with
  | nil => rfl
  | cons f frames ih =>
    rw [List.foldl_cons, List.foldl_cons, ih]
    congr 1
    simp [tokens_append, Component.tokens]

/-- Grouping keeps every token in its place. -/
theorem tokens_ofTokens (ts : List Token) : tokens (ofTokens ts) = ts := by
  have h : ∀ n : Nesting, (ts.foldl Nesting.step n).tokens = n.tokens ++ ts := by
    induction ts with
    | nil => simp
    | cons t ts ih => intro n; rw [List.foldl_cons, ih, Nesting.tokens_step]; simp
  rw [ofTokens, Nesting.tokens_finish, h]
  simp [Nesting.tokens, Nesting.start, tokens]

end Component

end Relength
