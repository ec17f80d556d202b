import Relength.Proofs.Reader
import Relength.Sheet.Write

/-!
# What is read is written back

The reader keeps every token that it reads, in its nodes or in the item that is open.
`Level.written` is the text that a body has taken up so far, with every declaration in it followed
by its `;`, and a token adds its own source to it (`Reader.written_step`).

The tree does not store which declarations are followed by `;`. It marks the body once some item in
it has ended in one, and `Level.Marked` says what a body without the mark holds: comments and blocks
only, which are written alike with the mark and without.

* `Token.spelled_tokenize`: the tokens that the tree does not keep are written in one way only;
* `Sheet.render_parse`: a sheet is written back as it was read, with a `}` for every block left
  open.
-/

namespace Relength

/-! ## How brackets, colons and semicolons are spelled -/

def Bracket.opener : Bracket → Char
  | .round => '('
  | .square => '['
  | .curly => '{'

def Bracket.closer : Bracket → Char
  | .round => ')'
  | .square => ']'
  | .curly => '}'

namespace Token

/-- Brackets, colons and semicolons are the characters that they are named for, and an at-keyword is
led by its sign. -/
def Spelled (t : Token) : Prop :=
  match t.kind with
  | .colon => t.source = [':']
  | .semicolon => t.source = [';']
  | .opening b => t.source = [b.opener]
  | .closing b => t.source = [b.closer]
  | .atKeyword _ => ∃ name, t.source = '@' :: name
  | _ => True

theorem spelled_single (c : Char) : Spelled ⟨single c, [c]⟩ := by
  unfold single
  repeat' split
  all_goals simp_all [Spelled, Bracket.opener, Bracket.closer]

theorem spelled_numeric (s : Text) : (numeric s).1.Spelled := by
  unfold numeric
  dsimp only
  split
  · trivial
  · split <;> trivial

theorem spelled_prepend {s : Text} {p : Token × Text}
    (h : p.1.kind = .string ∨ p.1.kind = .badString ∨ p.1.kind = .url ∨ p.1.kind = .badUrl) :
    (prepend s p).1.Spelled := by
  obtain h | h | h | h := h <;> simp [Spelled, prepend, h]

theorem kind_stringBody (quote : Char) (s : Text) :
    (stringBody quote s).1.kind = .string ∨ (stringBody quote s).1.kind = .badString := by
  fun_induction stringBody quote s with
  | case1 => exact .inl rfl
  | case2 => exact .inl rfl
  | case3 => exact .inr rfl
  | case4 _ _ _ _ _ ih => exact ih
  | case5 _ _ _ _ _ _ ih => exact ih
  | case6 _ _ _ _ _ ih => exact ih

theorem kind_urlEnd (s : Text) : (urlEnd s).1.kind = .url ∨ (urlEnd s).1.kind = .badUrl := by
  fun_induction urlEnd s with
  | case1 => exact .inl rfl
  | case2 => exact .inl rfl
  | case3 _ _ _ _ ih => exact ih
  | case4 => exact .inr rfl

theorem kind_urlBody (s : Text) : (urlBody s).1.kind = .url ∨ (urlBody s).1.kind = .badUrl := by
  fun_induction urlBody s with
  | case1 => exact .inl rfl
  | case2 => exact .inl rfl
  | case3 c r _ _ => exact kind_urlEnd r
  | case4 => exact .inr rfl
  | case5 _ _ _ _ _ _ ih => exact ih
  | case6 _ _ _ _ _ _ ih => exact ih

theorem spelled_identLike (s : Text) : (identLike s).1.Spelled := by
  unfold identLike
  dsimp only
  split
  · split
    · exact spelled_prepend (by have := kind_urlBody; grind)
    · trivial
  · trivial

theorem spelled_symbol (c : Char) (r : Text) : (symbol c r).1.Spelled := by
  cases symbol_cases c r with
  | space hspace => rw [symbol_space hspace]; trivial
  | quote hquote =>
    rw [symbol_quote hquote]
    exact spelled_prepend ((kind_stringBody c r).imp_right .inl)
  | atSign hc =>
    subst hc
    rw [symbol_at]
    split
    · exact ⟨_, rfl⟩
    · trivial
  | hashSign hc =>
    subst hc
    rw [symbol_hash]
    split <;> trivial
  | comment hc hs => subst hc hs; trivial
  | cdo hc hs => subst hc hs; trivial
  | attributeMatch hc hs =>
    subst hs
    rw [symbol_match hc]
    trivial
  | single halone =>
    rw [symbol_single halone]
    exact spelled_single c

/-- What holds of `-->` and of all numbers, names and symbols holds of the first token. -/
theorem of_next? {P : Token → Prop} (hcdc : P ⟨.cdc, ['-', '-', '>']⟩)
    (hnumeric : ∀ s, P (numeric s).1) (hident : ∀ s, P (identLike s).1)
    (hsymbol : ∀ c r, P (symbol c r).1) {s rest : Text} {t : Token}
    (h : next? s = some (t, rest)) : P t := by
  cases next?_cases h with
  | cdc ht => exact ht ▸ hcdc
  | numeric _ h =>
    have htoken := hnumeric s
    rwa [h] at htoken
  | identLike _ _ h =>
    have htoken := hident s
    rwa [h] at htoken
  | @symbol c r _ _ _ h =>
    have htoken := hsymbol c r
    rwa [h] at htoken

theorem spelled_next? {s rest : Text} {t : Token} (h : next? s = some (t, rest)) : t.Spelled :=
  of_next? trivial spelled_numeric spelled_identLike spelled_symbol h

theorem spelled_tokenize (s : Text) : ∀ t ∈ tokenize s, t.Spelled := by
  fun_induction tokenize s with
  | case1 => intro t ht; cases ht
  | case2 s t rest h ih =>
    intro u hu
    rcases List.mem_cons.mp hu with rfl | hu
    · exact spelled_next? h
    · exact ih u hu

end Token

/-! ## Nodes one after the other -/

namespace Node

theorem terminates_append (a b : List Node) (s : Bool) :
    terminates (a ++ b) s = terminates a (terminates b s) := by
  simp [terminates, Bool.or_comm, Bool.or_left_comm]

theorem renderList_append (s : Bool) (a b : List Node) :
    renderList s (a ++ b) = renderList (terminates b s) a ++ renderList s b := by
  induction a with
  | nil => simp [renderList]
  | cons n a ih => cases n <;> simp [renderList, ih, terminates_append]

/-- A declaration or a blockless at-rule, which a `;` follows or not. -/
def mayBeTerminated : Node → Bool
  | .statement .. => true
  | .declaration _ => true
  | _ => false

theorem renderList_of_unterminated {nodes : List Node} (h : ∀ n ∈ nodes, n.mayBeTerminated = false)
    (s : Bool) :
    renderList s nodes = renderList true nodes := by
  induction nodes with
  | nil => simp [renderList]
  | cons n nodes ih =>
    have hn := h n (by simp)
    have ih := ih fun m hm => h m (List.mem_cons_of_mem n hm)
    cases n with
    | statement rule spacing => cases hn
    | declaration d => cases hn
    | block head spacing children => simp [renderList, ih]
    | comment before text => simp [renderList, ih]
    | other before text terminated => simp [renderList, ih]

end Node

/-! ## The text of an item -/

theorem splitLast_append {c : Char} {s front back : Text} (h : splitLast c s = some (front, back)) :
    front ++ c :: back = s := by
  fun_induction splitLast c s generalizing front back with
  | case1 => cases h
  | case2 d r front' back' hr ih =>
    cases h
    rw [List.cons_append, ih hr]
  | case3 r d hr => cases h; rfl
  | case4 => cases h

theorem splitImportant_append (value : Text) :
    (splitImportant value).1 ++ (splitImportant value).2 = value := by
  unfold splitImportant
  split
  · next front keyword h =>
    split
    · rw [← List.append_assoc, Text.trimEnd_append_blankEnd]
      exact splitLast_append h
    · exact List.append_nil value
  · exact List.append_nil value

namespace Declaration

theorem importantText_ofSource (before name value : Text) (terminated : Bool) :
    (ofSource before name value terminated).importantText =
      (ofSource before name value terminated).importantTail := by
  unfold importantText
  cases h : (ofSource before name value terminated).importantTail with
  | nil => simp_all [ofSource]
  | cons c r => simp_all [ofSource]

/-- The parts of a declaration are the text between its terminators. -/
theorem render_ofSource (before name value : Text) (terminated : Bool) :
    (ofSource before name value terminated).render terminated ++
      (if terminated then [] else Text.blankEnd value) =
      before ++ name ++ ':' :: value ++ (if terminated then [';'] else []) := by
  have hname := Text.trimEnd_append_blankEnd name
  have hvalue := Text.trimEnd_append_blankEnd value
  have htext := Text.blankStart_append_trimStart (Text.trimEnd value)
  have hparts := splitImportant_append (Text.trimStart (Text.trimEnd value))
  rw [render, importantText_ofSource]
  simp only [ofSource]
  generalize splitImportant (Text.trimStart (Text.trimEnd value)) = parts at hparts
  obtain ⟨front, tail⟩ := parts
  calc _ = before ++ (Text.trimEnd name ++ Text.blankEnd name) ++
        ':' :: (Text.blankStart (Text.trimEnd value) ++ (front ++ tail) ++ Text.blankEnd value) ++
        (if terminated then [';'] else []) := by cases terminated <;> simp
    _ = _ := by rw [hname, hparts, htext, hvalue]

end Declaration

theorem AtRule.render_ofSource (name text : Text) :
    (ofSource name text).1.render ++ (ofSource name text).2 = '@' :: name ++ text := by
  have htext := Text.blankStart_append_trimStart text
  have hrest := Text.trimEnd_append_blankEnd (Text.trimStart text)
  simp only [ofSource, render, List.cons_append, List.append_assoc]
  rw [hrest, htext]

/-! ## What has been taken up -/

namespace Open

/-- The text of the open item, read so far. -/
def text (o : Open) : Text :=
  match o with
  | .gap pending => pending
  | .item before name none => before ++ name
  | .item before name (some value) => before ++ name ++ ':' :: value
  | .atRule before name text => before ++ '@' :: name ++ text

theorem text_append (o : Open) (s : Text) : (o.append s).text = o.text ++ s := by
  cases o with
  | gap pending => rfl
  | item before name value => cases value <;> simp [append, text]
  | atRule before name old => simp [append, text]

theorem text_colon (o : Open) : o.colon.text = o.text ++ [':'] := by
  cases o with
  | gap pending => simp [colon, text]
  | item before name value =>
    cases value with
    | none => rfl
    | some value => exact text_append (.item before name (some value)) [':']
  | atRule before name old => exact text_append (.atRule before name old) [':']

theorem text_semicolon (o : Open) :
    Node.renderList true o.semicolon.1 ++ o.semicolon.2.text = o.text ++ [';'] := by
  cases o with
  | gap pending => simp [semicolon, text, Node.renderList]
  | item before name value =>
    cases value with
    | none => simp [semicolon, text, Node.renderList]
    | some value =>
      have h := Declaration.render_ofSource before name value true
      simpa [semicolon, text, Node.renderList, Node.terminates] using h
  | atRule before name old =>
    have h := AtRule.render_ofSource name old
    simp only [semicolon, text, Node.renderList, Node.terminates, Bool.true_or, if_true,
      List.append_nil, List.append_assoc]
    rw [← List.append_assoc (AtRule.render _), h]
    simp

theorem text_block (o : Open) (body : Body) :
    Node.renderList true [o.block body] = o.text ++ '{' :: body.render ++ ['}'] := by
  cases o with
  | gap pending => simp [block, text, Node.renderList, Head.render, Body.render]
  | item before name value =>
    have h := Text.trimEnd_append_blankEnd (name ++ (value.map (':' :: ·)).getD [])
    simp only [block, Node.renderList, Head.render, Body.render, List.append_assoc]
    rw [← List.append_assoc (Text.trimEnd _), h]
    cases value <;> simp [text]
  | atRule before name old =>
    have h := AtRule.render_ofSource name old
    simp only [block, Node.renderList, Head.render, Body.render, List.append_assoc]
    rw [← List.append_assoc (AtRule.render _), h]
    simp [text]

/-- The end of the body leaves the last item without a `;`. -/
theorem text_finish (o : Open) : Node.renderList false o.finish.1 ++ o.finish.2 = o.text := by
  cases o with
  | gap pending => simp [finish, text, Node.renderList]
  | item before name value =>
    cases value with
    | none => simp [finish, text, Node.renderList, Text.trimEnd_append_blankEnd]
    | some value =>
      have h := Declaration.render_ofSource before name value false
      simpa [finish, text, Node.renderList, Node.terminates] using h
  | atRule before name old =>
    have h := AtRule.render_ofSource name old
    simp only [finish, text, Node.renderList, Node.terminates, Bool.false_or, List.any_nil,
      List.append_nil, List.append_assoc, Bool.false_eq_true, if_false]
    rw [h]

end Open

theorem Reading.text_token (r : Reading) {t : Token} (h : t.Spelled) :
    Node.renderList true (r.token t).1 ++ (r.token t).2.pending.text =
      r.pending.text ++ t.source := by
  obtain ⟨kind, source⟩ := t
  unfold token
  split
  · next hk =>
    have hsource : source = [';'] := by
      simpa [Token.Spelled, show kind = .semicolon from hk] using h
    rw [hsource]
    exact r.pending.text_semicolon
  · next hk =>
    have hsource : source = [':'] := by simpa [Token.Spelled, show kind = .colon from hk] using h
    rw [hsource]
    exact (congrArg (_ ++ ·) r.pending.text_colon).trans (by simp [Node.renderList])
  · split
    · next hp _ => simp [Node.renderList, Open.text, hp]
    · next hp _ => simp [Node.renderList, Open.text, hp]
    · next name hp hk =>
      obtain ⟨rest, hsource⟩ : ∃ rest, source = '@' :: rest := by
        simpa [Token.Spelled, show kind = .atKeyword _ from hk] using h
      simp [Node.renderList, Open.text, hp, hsource]
    · simp [Node.renderList, Open.text_append]

namespace Level

/-- The text that a body has taken up so far. -/
def written (l : Level) : Text := Node.renderList true l.nodes ++ l.reading.pending.text

/-- A body without the mark holds nothing that a `;` could follow. -/
def Marked (l : Level) : Prop :=
  l.reading.semicolon = false → ∀ n ∈ l.nodes, n.mayBeTerminated = false

theorem written_append (l : Level) (s : Text) : (l.append s).written = l.written ++ s := by
  simp [written, append, Open.text_append]

theorem renderList_true_append (a b : List Node) :
    Node.renderList true (a ++ b) = Node.renderList true a ++ Node.renderList true b := by
  simp [Node.renderList_append, Node.terminates]

theorem written_token (l : Level) {t : Token} (h : t.Spelled) :
    (l.token t).written = l.written ++ t.source := by
  simp only [written, token, renderList_true_append, List.append_assoc]
  rw [Reading.text_token l.reading h]

theorem written_close (l : Level) (body : Body) :
    (l.close body).written = l.written ++ '{' :: body.render ++ ['}'] := by
  simp [written, close, renderList_true_append, Open.text_block, Open.text]

theorem marked_start : start.Marked := by
  intro _ n hn
  cases hn

theorem marked_append {l : Level} (h : l.Marked) (s : Text) : (l.append s).Marked := h

theorem marked_token {l : Level} (h : l.Marked) (t : Token) : (l.token t).Marked := by
  intro hs n hn
  have hold (hs : l.reading.semicolon = false) (hn : n ∈ l.nodes) := h hs n hn
  simp only [token, Reading.token] at hs hn
  rcases List.mem_append.mp hn with hn | hn
  · refine hold ?_ hn
    split at hs
    · simp_all
    · exact hs
    · split at hs <;> exact hs
  · split at hs
    · obtain ⟨-, hgap⟩ : l.reading.semicolon = false ∧ l.reading.pending.isGap = true := by
        simpa using hs
      cases hp : l.reading.pending <;> simp_all [Open.isGap, Open.semicolon]
    · simp_all
    · split at hs <;> simp_all [Node.mayBeTerminated]

theorem marked_close {l : Level} (h : l.Marked) (body : Body) : (l.close body).Marked := by
  intro hs n hn
  rcases List.mem_append.mp hn with hn | hn
  · exact h hs n hn
  · rw [List.mem_singleton.mp hn]
    cases hp : l.reading.pending <;> rfl

/-- A body is written as it was read. -/
theorem render_body {l : Level} (h : l.Marked) : l.body.render = l.written := by
  obtain ⟨nodes, pending, semicolon⟩ := l
  have hfinish := pending.text_finish
  simp only [body, Reading.finish, Body.render, written, Node.renderList_append, List.append_assoc]
  cases pending with
  | gap pending =>
    -- No item is open, and whether the last one ended in a `;` is what the mark says.
    simp only [Open.finish, Open.isGap, Open.text, Node.terminates, Node.renderList, Bool.and_true,
      List.any_nil, Bool.or_false, List.nil_append]
    cases semicolon with
    | true => rfl
    | false => rw [Node.renderList_of_unterminated (h rfl) false]
  | item before name value =>
    rw [← hfinish]
    cases value <;> simp [Open.finish, Open.isGap, Node.terminates, Node.isComment]
  | atRule before name text =>
    rw [← hfinish]
    simp [Open.finish, Open.isGap, Node.terminates, Node.isComment]

end Level

namespace Reader

/-- The text that a reader has taken up so far. -/
def written (r : Reader) : Text :=
  r.outer.foldl (fun inner parent => parent.written ++ '{' :: inner) r.here.written

def Marked (r : Reader) : Prop := r.here.Marked ∧ ∀ l ∈ r.outer, l.Marked

theorem foldl_written (outer : List Level) (a b : Text) :
    outer.foldl (fun inner parent => parent.written ++ '{' :: inner) (a ++ b) =
      outer.foldl (fun inner parent => parent.written ++ '{' :: inner) a ++ b := by
  induction outer generalizing a with
  | nil => rfl
  | cons parent outer ih =>
    rw [List.foldl_cons, List.foldl_cons, ← ih]
    simp

theorem marked_start : start.Marked := ⟨Level.marked_start, by intro l hl; cases hl⟩

theorem marked_step {r : Reader} (h : r.Marked) (t : Token) : (r.step t).Marked := by
  obtain ⟨here, outer, skipped⟩ := r
  obtain ⟨hhere, houter⟩ := h
  unfold step
  cases skipped with
  | cons b inner =>
    dsimp only
    repeat' split
    all_goals exact ⟨Level.marked_append hhere _, houter⟩
  | nil =>
    dsimp only
    split
    · exact ⟨Level.marked_start, List.forall_mem_cons.mpr ⟨hhere, houter⟩⟩
    · exact ⟨Level.marked_append hhere _, houter⟩
    · cases outer with
      | nil => exact ⟨Level.marked_token hhere t, houter⟩
      | cons parent outer =>
        obtain ⟨hparent, houter'⟩ := List.forall_mem_cons.mp houter
        dsimp only
        split
        · exact ⟨Level.marked_close hparent _, houter'⟩
        · exact ⟨Level.marked_token hhere t, houter⟩

theorem written_here (here here' : Level) (outer : List Level) (skipped skipped' : List Bracket)
    {s : Text} (h : here'.written = here.written ++ s) :
    written ⟨here', outer, skipped'⟩ = written ⟨here, outer, skipped⟩ ++ s := by
  simp only [written]
  rw [h, foldl_written]

/-- A token is taken up by its source. -/
theorem written_step {r : Reader} (hr : r.Marked) {t : Token} (ht : t.Spelled) :
    (r.step t).written = r.written ++ t.source := by
  obtain ⟨here, outer, skipped⟩ := r
  unfold step
  cases skipped with
  | cons b inner =>
    have happend := here.written_append t.source
    dsimp only
    repeat' split
    all_goals exact written_here _ _ outer _ _ happend
  | nil =>
    dsimp only
    split
    · next hopens =>
      -- The block is empty so far, and its brace has been read.
      have hsource : t.source = ['{'] := by
        unfold Token.opens? at hopens
        split at hopens
        · cases hopens
        · next b hk =>
          cases hopens
          simpa [Token.Spelled, hk, Bracket.opener] using ht
        · cases hopens
      rw [hsource]
      simp only [written, List.foldl_cons]
      rw [← foldl_written]
      congr 1
      simp [Level.written, Level.start, Reading.start, Open.text, Node.renderList]
    · exact written_here _ _ outer _ _ (here.written_append t.source)
    · cases outer with
      | nil => exact written_here _ _ [] _ _ (here.written_token ht)
      | cons parent outer =>
        dsimp only
        split
        · next hcloses =>
          have hsource : t.source = ['}'] := by
            simpa [Token.Spelled, Token.closes?_eq_some_iff.mp hcloses, Bracket.closer] using ht
          rw [hsource]
          simp only [written, List.foldl_cons]
          rw [← foldl_written, Level.written_close, Level.render_body hr.1]
        · exact written_here _ _ (parent :: outer) _ _ (here.written_token ht)

theorem written_foldl {ts : List Token} (h : ∀ t ∈ ts, t.Spelled) :
    (ts.foldl step start).Marked ∧ (ts.foldl step start).written = Token.join ts := by
  induction ts using List.reverseRecOn with
  | nil => exact ⟨marked_start, by simp [written, start, Level.written, Level.start, Token.join,
      Node.renderList, Reading.start, Open.text]⟩
  | append_singleton ts t ih =>
    obtain ⟨hmarked, hwritten⟩ := ih fun u hu => h u (by simp [hu])
    rw [List.foldl_append, List.foldl_cons, List.foldl_nil, written_step hmarked (h t (by simp)),
      hwritten]
    exact ⟨marked_step hmarked t, by simp [Token.join]⟩

/-- The end of the text gives every open body its `}`. -/
theorem render_finish {r : Reader} (h : r.Marked) :
    r.finish.render = r.written ++ List.replicate r.outer.length '}' := by
  obtain ⟨here, outer, skipped⟩ := r
  obtain ⟨hhere, houter⟩ := h
  have hfold (body : Body) :
      (outer.foldl (fun body parent => (parent.close body).body) body).render =
        outer.foldl (fun inner parent => parent.written ++ '{' :: inner) body.render ++
          List.replicate outer.length '}' := by
    clear hhere
    induction outer generalizing body with
    | nil => simp
    | cons parent outer ih =>
      obtain ⟨hparent, houter⟩ := List.forall_mem_cons.mp houter
      rw [List.foldl_cons, List.foldl_cons, ih houter,
        Level.render_body (Level.marked_close hparent body), Level.written_close, foldl_written,
        List.length_cons, List.replicate_succ, List.append_assoc]
      rfl
  rw [finish, hfold, Level.render_body hhere]
  rfl

/-- The body of tokens is written as they are, with a `}` for every body that they leave open. -/
theorem render_foldl {ts : List Token} (h : ∀ t ∈ ts, t.Spelled) :
    (ts.foldl step start).finish.render =
      Token.join ts ++ List.replicate (ts.foldl step start).outer.length '}' := by
  obtain ⟨hmarked, hwritten⟩ := written_foldl h
  rw [render_finish hmarked, hwritten]

end Reader

/-! ## Blocks left open -/

namespace Component

/-- How many of the blocks that are read as bodies are still open at the end of the text. -/
def openBlocks : List Component → Nat
  | [] => 0
  | .token _ :: rest => openBlocks rest
  | .block opener content closer :: rest =>
    (if opener.kind = .opening .curly then (if closer.isNone then 1 else 0) + openBlocks content
      else 0) +
      openBlocks rest

theorem openBlocks_append (a b : List Component) :
    openBlocks (a ++ b) = openBlocks a + openBlocks b := by
  fun_induction openBlocks a with
  | case1 => simp
  | case2 t rest ih => rw [List.cons_append, openBlocks, ih]
  | case3 opener content closer rest _ ih =>
    rw [List.cons_append, openBlocks, ih]
    omega

theorem openBlocks_reverse (cs : List Component) : openBlocks cs.reverse = openBlocks cs := by
  induction cs with
  | nil => rfl
  | cons c cs ih =>
    rw [List.reverse_cons, openBlocks_append, ih, Nat.add_comm, ← openBlocks_append,
      List.singleton_append]

/-- What stands in front of an open block, and what has been read in the innermost one, is
closed. -/
def Nesting.Closed (n : Nesting) : Prop :=
  openBlocks n.done = 0 ∧ ∀ f ∈ n.frames, openBlocks f.before = 0

theorem Nesting.closed_add {n : Nesting} (h : n.Closed) (t : Token) : (n.add (.token t)).Closed :=
  ⟨by rw [add, openBlocks]; exact h.1, h.2⟩

theorem Nesting.closed_step {n : Nesting} (h : n.Closed) (t : Token) : (n.step t).Closed := by
  obtain ⟨done, frames⟩ := n
  unfold step
  split
  · exact ⟨by simp [openBlocks], List.forall_mem_cons.mpr h⟩
  · cases frames with
    | nil => exact closed_add h t
    | cons f frames =>
      obtain ⟨hf, hframes⟩ := List.forall_mem_cons.mp h.2
      dsimp only
      split
      · have hdone : openBlocks done.reverse = 0 := (openBlocks_reverse done).trans h.1
        refine ⟨?_, hframes⟩
        rw [close, openBlocks, hdone, hf]
        simp
      · exact closed_add h t

end Component

namespace Reader

/-- What is open depends on the frames alone. -/
theorem ofNesting_frame (frames : List Component.Frame) (cs ds : List Component) :
    (ofNesting ⟨cs, frames⟩).outer = (ofNesting ⟨ds, frames⟩).outer ∧
      (ofNesting ⟨cs, frames⟩).skipped = (ofNesting ⟨ds, frames⟩).skipped := by
  obtain ⟨houter, hskipped⟩ := (ofFrames frames).read_frame cs.reverse
  obtain ⟨houter', hskipped'⟩ := (ofFrames frames).read_frame ds.reverse
  exact ⟨houter.trans houter'.symm, hskipped.trans hskipped'.symm⟩

/-- The bodies that are open around a reader are the blocks that its nesting leaves open. -/
theorem openBlocks_finish {n : Component.Nesting} (hs : Sound n)
    (hf : ∀ f ∈ n.frames, Component.openBlocks f.before = 0) :
    Component.openBlocks n.finish = (ofNesting n).outer.length +
      (if (ofNesting n).skipped = [] then Component.openBlocks n.done else 0) := by
  obtain ⟨done, frames⟩ := n
  induction frames generalizing done with
  | nil =>
    have hstart : ofNesting ⟨done, []⟩ = ⟨Level.start.run done.reverse, [], []⟩ :=
      read_of_skipped_nil rfl _
    rw [hstart]
    simp [Component.Nesting.finish, Component.openBlocks_reverse]
  | cons f frames ih =>
    have hopen := hs f (by simp)
    obtain ⟨hbefore, hframes⟩ := List.forall_mem_cons.mp hf
    have hfinish : Component.Nesting.finish ⟨done, f :: frames⟩ =
        Component.Nesting.finish ⟨.block f.opener done.reverse none :: f.before, frames⟩ := rfl
    obtain ⟨houter, hskipped⟩ :=
      ofNesting_frame frames (.block f.opener done.reverse none :: f.before) f.before
    rw [hfinish, ih _ (fun g hg => hs g (List.mem_cons_of_mem f hg)) hframes, houter, hskipped]
    simp only [Component.openBlocks, Component.openBlocks_reverse, hbefore]
    by_cases hbody : (ofNesting ⟨f.before, frames⟩).skipped = [] ∧ f.bracket = .curly
    · obtain ⟨hn, -⟩ := ofNesting_body hopen frames hbody.1 hbody.2 done
      rw [hn]
      simp [hbody.1, (opener_kind_iff hopen).mpr hbody.2]
      omega
    · obtain ⟨hn, -⟩ := ofNesting_text hopen frames hbody done
      rw [hn]
      rw [← opener_kind_iff hopen] at hbody
      grind

end Reader

namespace Component

theorem Nesting.closed_foldl (ts : List Token) : (ts.foldl Nesting.step .start).Closed := by
  induction ts using List.reverseRecOn with
  | nil => exact ⟨by simp [Nesting.start, openBlocks], by intro f hf; cases hf⟩
  | append_singleton ts t ih =>
    rw [List.foldl_append, List.foldl_cons, List.foldl_nil]
    exact closed_step ih t

/-- The blocks that are left open are the bodies around the one in which the tokens end. -/
theorem openBlocks_ofTokens (ts : List Token) :
    openBlocks (ofTokens ts) = (ts.foldl Reader.step .start).outer.length := by
  obtain ⟨hsound, hrun⟩ := Reader.sound_foldl ts
  obtain ⟨hdone, hframes⟩ := Nesting.closed_foldl ts
  rw [ofTokens, Reader.openBlocks_finish hsound hframes, hrun, hdone, ite_self, Nat.add_zero]

end Component

/-- A sheet is written back as it was read, with a `}` for every block that its text leaves open. So
the text comes back exactly as it was if, and only if, every block is closed. -/
theorem Sheet.render_parse (css : Text) (path : Option Text) :
    (Sheet.parse css path).render =
        css ++ List.replicate (Component.openBlocks (Component.ofText css)) '}' ∧
      ((Sheet.parse css path).render = css ↔ Component.openBlocks (Component.ofText css) = 0) := by
  have hrender : (Sheet.parse css path).render =
      css ++ List.replicate (Component.openBlocks (Component.ofText css)) '}' := by
    rw [Sheet.render, Sheet.parse, Component.ofText, Body.ofComponents_ofTokens,
      Reader.render_foldl (Token.spelled_tokenize css), Token.join_tokenize,
      Component.openBlocks_ofTokens]
  refine ⟨hrender, ?_⟩
  rw [hrender, List.append_right_eq_self, List.replicate_eq_nil_iff]

end Relength
