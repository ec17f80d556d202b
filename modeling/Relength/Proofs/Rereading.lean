import Relength.Proofs.Editing
import Relength.Proofs.Locality.Tokens

/-!
# Reading an edited sheet

A parsed sheet whose declarations were edited is written and read again. The reader has read a text;
for each way to edit the declarations in what it has read there is a list of tokens that reads as
that (`Reader.Rereads`). An item whose value is open is kept apart: how it is edited is known only
where it ends. Which edits can be read again is a condition on single items (`Spellable`): tokens
behind the colon that read as the edited nodes.

Inside an item the reader goes by the marks of the tokens alone (`OpenValue.foldl_of_pass`). The
text in front of the colon reads alike wherever an item may begin (`Reader.Led`), so an edit may
write it once more.

* `Reader.rereads_step`, `Reader.rereads_foldl`: one token, and the whole text;
* `Sheet.parse_render_edited`: the edited sheet is read back from its text.
-/

namespace Relength

open Token

namespace Token

variable {t : Token} {b : Bracket}

theorem marks_of_opens (h : t.opens? = some b) : t.kind.marks = [.opening b] := by
  unfold opens? at h
  split at h
  · next hk =>
    cases h
    rw [hk]
    rfl
  · next hk =>
    cases h
    rw [hk]
    rfl
  · cases h

/-- A url opens its bracket and closes it. -/
theorem marks_of_neither (hopens : t.opens? = none) (hcloses : t.closes? = none) :
    t.kind = .semicolon ∨ t.kind.marks = [] ∨ t.kind.marks =
      [.opening .round, .closing .round] := by
  obtain ⟨kind, source⟩ := t
  cases kind with
  | semicolon => exact .inl rfl
  | url => exact .inr (.inr rfl)
  | badUrl => exact .inr (.inr rfl)
  | function name => cases hopens
  | opening b => cases hopens
  | closing b => cases hcloses
  | _ => exact .inr (.inl rfl)

end Token

namespace Reader

/-! ## Marks in an item -/

/-- What a mark makes of the open brackets in an item, unless it ends the item. -/
def pass (top : Bool) (stack : List Bracket) : Mark → Option (List Bracket)
  | .semicolon => if stack.isEmpty then none else some stack
  | .opening b => if stack.isEmpty && b == .curly then none else some (b :: stack)
  | .closing b =>
    match stack with
    | [] => if b == .curly && !top then none else some []
    | b' :: inner => if b = b' then some inner else some (b' :: inner)

/-- The brackets that are open behind the marks, unless one of them ends the item. -/
def passAll (top : Bool) (stack : List Bracket) (ms : List Mark) : Option (List Bracket) :=
  ms.foldlM (pass top) stack

theorem passAll_append (top : Bool) (stack : List Bracket) (a b : List Mark) :
    passAll top stack (a ++ b) = (passAll top stack a).bind (passAll top · b) :=
  List.foldlM_append

theorem passAll_singleton (top : Bool) (stack : List Bracket) (m : Mark) :
    passAll top stack [m] = pass top stack m := by
  simp [passAll]

theorem passAll_round (top : Bool) (stack : List Bracket) :
    passAll top stack [.opening .round, .closing .round] = some stack := by
  cases stack <;> rfl

end Reader

namespace OpenValue

variable {o : OpenValue} {value : Text} {nodes : List Node} {outer : List Level}
  {skipped stack : List Bracket}
  {t : Token}

/-- Outside brackets a token that opens none is text of the value, unless it ends the item. -/
theorem step_outside (ht : t.Spelled) (hk : t.kind ≠ .semicolon) (hopens : t.opens? = none)
    (hcloses : outer = [] ∨ t.closes? ≠ some .curly) :
    (o.reader value nodes outer []).step t = o.reader (value ++ t.source) nodes outer [] := by
  have htoken : Reading.token ⟨.item o.before o.name (some value), o.semicolon⟩ t =
      ([], ⟨.item o.before o.name (some (value ++ t.source)), o.semicolon⟩) := by
    obtain ⟨kind, source⟩ := t
    unfold Reading.token
    split
    · next hs => exact absurd hs hk
    · next hc =>
      have hsource : source = [':'] := by simpa [Spelled, show kind = .colon from hc] using ht
      rw [hsource]
      rfl
    · rfl
  cases outer with
  | nil => simp only [reader, level, Reader.step, hopens, Level.token, htoken, List.append_nil]
  | cons parent outer =>
    have hcloses := hcloses.resolve_left (by simp)
    simp only [reader, level, Reader.step, hopens, Level.token, htoken, hcloses, List.append_nil,
      if_false]

theorem step_opening {b : Bracket} (hopens : t.opens? = some b)
    (h : Reader.pass outer.isEmpty skipped (.opening b) = some stack) :
    (o.reader value nodes outer skipped).step t =
      o.reader (value ++ t.source) nodes outer stack := by
  rw [Reader.pass] at h
  rw [Reader.step_of_opens hopens]
  split at h
  · cases h
  · next hb =>
    cases h
    exact if_neg hb

theorem step_closing {b : Bracket} (ht : t.Spelled) (hopens : t.opens? = none)
    (hcloses : t.closes? = some b)
    (h : Reader.pass outer.isEmpty skipped (.closing b) = some stack) :
    (o.reader value nodes outer skipped).step t =
      o.reader (value ++ t.source) nodes outer stack := by
  cases skipped with
  | nil =>
    have hends : outer = [] ∨ t.closes? ≠ some .curly := by
      by_contra hc
      simp_all [Reader.pass]
    obtain rfl : stack = [] := by
      rw [Reader.pass] at h
      split at h
      · cases h
      · exact (Option.some.inj h).symm
    exact step_outside ht (by simp [closes?_eq_some_iff.mp hcloses]) hopens hends
  | cons b' inner =>
    simp only [reader, Reader.step, hopens, hcloses, Option.some.injEq]
    rw [Reader.pass] at h
    split at h
    · next hb =>
      cases h
      exact if_pos hb
    · next hb =>
      cases h
      exact if_neg hb

theorem step_neither (ht : t.Spelled) (hopens : t.opens? = none) (hcloses : t.closes? = none)
    (h : Reader.passAll outer.isEmpty skipped t.kind.marks = some stack) :
    (o.reader value nodes outer skipped).step t =
      o.reader (value ++ t.source) nodes outer stack := by
  have hsemicolon : t.kind = .semicolon → skipped ≠ [] := by
    rintro hk rfl
    rw [hk] at h
    cases h
  obtain rfl : stack = skipped := by
    rcases marks_of_neither hopens hcloses with hk | hmarks | hmarks
    · obtain ⟨b, inner, rfl⟩ := List.exists_cons_of_ne_nil (hsemicolon hk)
      rw [hk] at h
      exact (Option.some.inj h).symm
    · rw [hmarks] at h
      exact (Option.some.inj h).symm
    · rw [hmarks, Reader.passAll_round] at h
      exact (Option.some.inj h).symm
  cases stack with
  | nil => exact step_outside ht (fun hk => hsemicolon hk rfl) hopens (.inr (by simp [hcloses]))
  | cons b inner =>
    simp only [reader, Reader.step, hopens, hcloses]
    rfl

/-- A token whose marks pass is text of the value. -/
theorem step_of_pass (ht : t.Spelled)
    (h : Reader.passAll outer.isEmpty skipped t.kind.marks = some stack) :
    (o.reader value nodes outer skipped).step t =
      o.reader (value ++ t.source) nodes outer stack := by
  cases hopens : t.opens? with
  | some b =>
    rw [marks_of_opens hopens, Reader.passAll_singleton] at h
    exact step_opening hopens h
  | none =>
    cases hcloses : t.closes? with
    | some b =>
      rw [closes?_eq_some_iff.mp hcloses, Kind.marks, Reader.passAll_singleton] at h
      exact step_closing ht hopens hcloses h
    | none => exact step_neither ht hopens hcloses h

/-- Tokens whose marks pass are text of the value. -/
theorem foldl_of_pass {ts : List Token} (hts : ∀ t ∈ ts, t.Spelled)
    (h : Reader.passAll outer.isEmpty skipped (ts.flatMap (·.kind.marks)) = some stack) :
    ts.foldl Reader.step (o.reader value nodes outer skipped) =
      o.reader (value ++ join ts) nodes outer stack := by
  induction ts generalizing skipped value with
  | nil =>
    obtain rfl : skipped = stack := Option.some.inj h
    simp [join]
  | cons t ts ih =>
    rw [List.flatMap_cons, Reader.passAll_append] at h
    obtain ⟨stack', hnow, hrest⟩ := Option.bind_eq_some_iff.mp h
    rw [List.foldl_cons, step_of_pass (hts t (by simp)) hnow,
      ih (fun u hu => hts u (by simp [hu])) hrest]
    simp

/-- A token whose marks do not pass stands outside brackets, and is one that ends the item. -/
theorem ends_of_pass {top : Bool} (h : Reader.passAll top skipped t.kind.marks = none) :
    skipped = [] ∧ (t.kind = .semicolon ∨ t.kind = .opening .curly ∨ t.kind = .closing .curly ∧
      top = false) := by
  obtain ⟨kind, source⟩ := t
  cases kind with
  | semicolon =>
    rw [show Kind.semicolon.marks = [.semicolon] from rfl, Reader.passAll_singleton, Reader.pass]
      at h
    split at h
    · next hs => exact ⟨List.isEmpty_iff.mp hs, .inl rfl⟩
    · cases h
  | opening b =>
    rw [show (Kind.opening b).marks = [.opening b] from rfl, Reader.passAll_singleton, Reader.pass]
      at h
    split at h
    · next hs =>
      obtain ⟨hskipped, rfl⟩ : skipped = [] ∧ b = .curly := by simpa using hs
      exact ⟨hskipped, .inr (.inl rfl)⟩
    · cases h
  | closing b =>
    rw [show (Kind.closing b).marks = [.closing b] from rfl, Reader.passAll_singleton] at h
    cases skipped with
    | nil =>
      rw [Reader.pass] at h
      split at h
      · next hs =>
        obtain ⟨rfl, htop⟩ : b = .curly ∧ top = false := by simpa using hs
        exact ⟨rfl, .inr (.inr ⟨rfl, htop⟩)⟩
      · cases h
    | cons b' inner =>
      rw [Reader.pass] at h
      split at h <;> cases h
  | function name => cases skipped <;> cases h
  | url => cases skipped <;> cases h
  | badUrl => cases skipped <;> cases h
  | _ => cases h

end OpenValue

/-! ## The text in front of a value -/

/-- Outside brackets only a colon opens a value. -/
theorem Reading.colon_of_hasValue {r : Reading} {t : Token} (hr : ¬r.pending.HasValue)
    (h : (r.token t).2.pending.HasValue) :
    t.kind = .colon ∧ ∃ before name, r.token t =
      ([], ⟨.item before name (some []), r.semicolon⟩) := by
  obtain ⟨pending, semicolon⟩ := r
  have happend := Open.not_hasValue_append hr
  unfold token at h ⊢
  split at h
  · obtain ⟨before, name, value, h⟩ := h
    cases pending with
    | gap pending => cases h
    | item before name value => cases value <;> cases h
    | atRule before name text => cases h
  · next hk =>
    refine ⟨hk, ?_⟩
    cases pending with
    | gap pending => exact ⟨pending, [], rfl⟩
    | item before name value =>
      cases value with
      | none => exact ⟨before, name, rfl⟩
      | some value => exact absurd ⟨_, _, _, rfl⟩ hr
    | atRule before name text => exact absurd h (happend _)
  · split at h
    · obtain ⟨before, name, value, h⟩ := h
      cases h
    · obtain ⟨before, name, value, h⟩ := h
      cases h
    · obtain ⟨before, name, value, h⟩ := h
      cases h
    · exact absurd h (happend _)

/-- A token ends an item, or does the same in front of whatever has been read. -/
theorem Reading.ends_or_repeats_token (r : Reading) (t : Token) :
    (r.token t).2.pending = .gap [] ∨
      ∀ semicolon, token ⟨r.pending, semicolon⟩ t = ([], ⟨(r.token t).2.pending, semicolon⟩) := by
  obtain ⟨pending, semicolon⟩ := r
  obtain ⟨kind, source⟩ := t
  cases kind with
  | semicolon =>
    cases pending with
    | gap pending => exact .inr fun semicolon => by simp [token, Open.semicolon, Open.isGap]
    | item before name value => cases value <;> exact .inl rfl
    | atRule before name text => exact .inl rfl
  | comment =>
    cases pending with
    | gap pending => exact .inl rfl
    | item before name value => exact .inr fun _ => rfl
    | atRule before name text => exact .inr fun _ => rfl
  | _ => cases pending <;> exact .inr fun _ => rfl

namespace Reader

/-- The reader with nothing in its body but the open item, in another place. -/
def moved (r : Reader) (nodes : List Node) (semicolon : Bool) (outer : List Level) : Reader :=
  ⟨⟨nodes, ⟨r.here.reading.pending, semicolon⟩⟩, outer, r.skipped⟩

/-- The reader where an item may begin. -/
def beginning (nodes : List Node) (semicolon : Bool) (outer : List Level) : Reader :=
  ⟨⟨nodes, ⟨.gap [], semicolon⟩⟩, outer, []⟩

/-- An item may begin behind what has been read. -/
def Begins (r : Reader) : Prop := r.here.reading.pending = .gap [] ∧ r.skipped = []

/-- The token does the same in any other place. -/
def Repeats (r : Reader) (t : Token) : Prop :=
  (r.step t).outer.isEmpty = r.outer.isEmpty ∧
    ∀ nodes semicolon outer, outer.isEmpty = r.outer.isEmpty →
      (r.moved nodes semicolon outer).step t = (r.step t).moved nodes semicolon outer

variable {nodes : List Node} {pending : Open} {semicolon : Bool} {outer : List Level} {t : Token}

theorem repeats_of_append {text : Text} {skipped stack : List Bracket}
    (h : ∀ here outer, step ⟨here, outer, skipped⟩ t = ⟨here.append text, outer, stack⟩) :
    Repeats ⟨⟨nodes, ⟨pending, semicolon⟩⟩, outer, skipped⟩ t := by
  refine ⟨by rw [h], fun nodes' semicolon' outer' _ => ?_⟩
  rw [h]
  exact h _ _

theorem begins_or_repeats_token
    (h : ∀ nodes' semicolon' outer', outer'.isEmpty = outer.isEmpty →
      step ⟨⟨nodes', ⟨pending, semicolon'⟩⟩, outer', []⟩ t =
        ⟨Level.token ⟨nodes', ⟨pending, semicolon'⟩⟩ t, outer', []⟩) :
    (step ⟨⟨nodes, ⟨pending, semicolon⟩⟩, outer, []⟩ t).Begins ∨
      Repeats ⟨⟨nodes, ⟨pending, semicolon⟩⟩, outer, []⟩ t := by
  have hhere := h nodes semicolon outer rfl
  rcases Reading.ends_or_repeats_token ⟨pending, semicolon⟩ t with hgap | hsame
  · rw [hhere]
    exact .inl ⟨hgap, rfl⟩
  · refine .inr ⟨by rw [hhere], fun nodes' semicolon' outer' houter => ?_⟩
    rw [hhere, moved, h nodes' semicolon' outer' houter, Level.token, hsame, List.append_nil]
    rfl

/-- Behind a token an item may begin, or the token does the same in any other place. -/
theorem begins_or_repeats (r : Reader) (t : Token) : (r.step t).Begins ∨ r.Repeats t := by
  obtain ⟨⟨nodes, ⟨pending, semicolon⟩⟩, outer, skipped⟩ := r
  cases skipped with
  | cons b inner =>
    obtain ⟨stack, hstep⟩ := step_inside b inner t
    exact .inr (repeats_of_append hstep)
  | nil =>
    cases hopens : t.opens? with
    | some b =>
      have hstep (here : Level) (outer : List Level) :=
        step_of_opens (r := ⟨here, outer, []⟩) hopens
      by_cases hb : b = .curly
      · subst hb
        rw [hstep]
        exact .inl ⟨rfl, rfl⟩
      · have hstep (here : Level) (outer : List Level) :
            step ⟨here, outer, []⟩ t = ⟨here.append t.source, outer, [b]⟩ := by
          rw [hstep, if_neg (by simp [hb])]
        exact .inr (repeats_of_append hstep)
    | none =>
      cases outer with
      | nil =>
        refine begins_or_repeats_token fun nodes' semicolon' outer' houter => ?_
        obtain rfl : outer' = [] := List.isEmpty_iff.mp houter
        simp only [step, hopens]
      | cons parent outer =>
        by_cases hcloses : t.closes? = some .curly
        · simp only [step, hopens, hcloses, if_true]
          exact .inl ⟨rfl, rfl⟩
        · refine begins_or_repeats_token fun nodes' semicolon' outer' houter => ?_
          obtain ⟨parent', outer', rfl⟩ : ∃ parent' outer'', outer' = parent' :: outer'' :=
            List.exists_cons_of_ne_nil fun h => by simp [h] at houter
          simp only [step, hopens, hcloses, if_false]

/-- The tokens since the item could begin, in front of `rest`: they read alike in any other place
where an item may begin. -/
def Led (r : Reader) (rest : Text) : Prop :=
  ∃ us, Lexes us rest ∧ ∀ nodes semicolon outer, outer.isEmpty = r.outer.isEmpty →
    us.foldl step (beginning nodes semicolon outer) = r.moved nodes semicolon outer

theorem Led.of_begins {r : Reader} (h : r.Begins) (rest : Text) : r.Led rest := by
  refine ⟨[], lexes_nil rest, fun nodes semicolon outer _ => ?_⟩
  rw [moved, h.1, h.2]
  rfl

theorem Led.step {r : Reader} {t : Token} {rest : Text} (h : r.Led (t.source ++ rest))
    (ht : Lexes [t] rest) : (r.step t).Led rest := by
  rcases r.begins_or_repeats t with hbegins | ⟨hempty, hmoved⟩
  · exact .of_begins hbegins rest
  · obtain ⟨us, hus, hread⟩ := h
    refine ⟨us ++ [t], Lexes.append (by simpa [join] using hus) ht, ?_⟩
    intro nodes semicolon outer houter
    rw [hempty] at houter
    rw [List.foldl_append, hread nodes semicolon outer houter]
    exact hmoved nodes semicolon outer houter

end Reader

namespace OpenValue

/-- The tokens up to the colon of the item: they read alike wherever an item may begin, whatever
stands behind them. -/
structure LedBy (o : OpenValue) (top : Bool) (us : List Token) : Prop where
  lexes : ∀ s, Lexes us s
  read : ∀ nodes semicolon outer, outer.isEmpty = top →
    us.foldl Reader.step (.beginning nodes semicolon outer) =
      ({ o with semicolon := semicolon } : OpenValue).reader [] nodes outer []

/-- In front of `rest` the reader stands behind the tokens `vs` of the value, with these brackets
open in it. The tokens `us` lead to the value. -/
structure Inside (o : OpenValue) (top : Bool) (us vs : List Token) (stack : List Bracket)
    (rest : Text) : Prop where
  led : o.LedBy top us
  lexes : Lexes vs rest
  pass : Reader.passAll top [] (vs.flatMap (·.kind.marks)) = some stack

theorem Inside.foldl {o : OpenValue} {top : Bool} {us vs : List Token} {stack : List Bracket}
    {rest : Text} (h : o.Inside top us vs stack rest) (nodes : List Node) {outer : List Level}
    (houter : outer.isEmpty = top) :
    vs.foldl Reader.step (o.reader [] nodes outer []) = o.reader (join vs) nodes outer stack :=
  foldl_of_pass h.lexes.spelled (houter.symm ▸ h.pass)

end OpenValue

namespace Reader

/-- A value is opened by a colon outside brackets. -/
theorem colon_of_hasValue {r : Reader} {t : Token} (ht : t.Spelled) (hr : ¬r.HasValue)
    (h : (r.step t).HasValue) :
    t = ⟨.colon, [':']⟩ ∧ ∃ o nodes outer, r.step t = OpenValue.reader o [] nodes outer [] := by
  obtain ⟨here, outer, skipped⟩ := r
  have happend : ¬(here.reading.pending.append t.source).HasValue := Open.not_hasValue_append hr _
  have htoken (h : (here.token t).reading.pending.HasValue) :
      t = ⟨.colon, [':']⟩ ∧ ∃ o : OpenValue, ∀ outer,
        ⟨here.token t, outer, []⟩ = o.reader [] here.nodes outer [] := by
    obtain ⟨hk, before, name, htoken⟩ := Reading.colon_of_hasValue hr h
    refine ⟨?_, ⟨before, name, here.reading.semicolon⟩, fun outer => ?_⟩
    · obtain ⟨kind, source⟩ := t
      obtain rfl : kind = .colon := hk
      exact congrArg _ (by simpa [Spelled] using ht)
    · rw [Level.token, htoken, List.append_nil]
      rfl
  cases skipped with
  | cons b inner =>
    obtain ⟨stack, hstep⟩ := step_inside b inner t
    rw [hstep] at h
    exact absurd h happend
  | nil =>
    cases hopens : t.opens? with
    | some b =>
      rw [step_of_opens hopens] at h
      split at h
      · obtain ⟨before, name, value, h⟩ := h
        cases h
      · exact absurd h happend
    | none =>
      have hhere : step ⟨here, outer, []⟩ t = ⟨here.token t, outer, []⟩ := by
        cases outer with
        | nil => simp only [step, hopens]
        | cons parent outer =>
          simp only [step, hopens] at h ⊢
          split at h
          · obtain ⟨before, name, value, h⟩ := h
            cases h
          · next hcloses => rw [if_neg hcloses]
      rw [hhere] at h ⊢
      obtain ⟨ht, o, ho⟩ := htoken h
      exact ⟨ht, o, here.nodes, outer, ho outer⟩

/-- Behind a token that ends an item no value is open. -/
theorem not_hasValue_step {o : OpenValue} {value : Text} {nodes : List Node} {outer : List Level}
    {stack : List Bracket} {t : Token} (h : passAll outer.isEmpty stack t.kind.marks = none) :
    ¬((o.reader value nodes outer stack).step t).HasValue := by
  obtain ⟨rfl, hk⟩ := OpenValue.ends_of_pass h
  rintro ⟨before, name, value', h⟩
  obtain ⟨kind, source⟩ := t
  dsimp only at hk
  rcases hk with rfl | rfl | ⟨rfl, htop⟩
  · cases outer <;> cases h
  · cases h
  · cases outer with
    | nil => cases htop
    | cons parent outer => cases h

/-- A colon that opens a value is the last of the tokens up to the value. -/
theorem Led.colon {r : Reader} {rest : Text} (h : r.Led (':' :: rest)) {o : OpenValue}
    {nodes : List Node} {outer : List Level}
    (hstep : r.step ⟨.colon, [':']⟩ = o.reader [] nodes outer []) :
    ∃ us, o.LedBy outer.isEmpty us := by
  obtain ⟨us, hus, hread⟩ := h
  obtain ⟨hempty, hmoved⟩ := (r.begins_or_repeats ⟨.colon, [':']⟩).resolve_left fun h => by
    rw [hstep] at h
    cases h.1
  rw [hstep] at hempty hmoved
  refine ⟨us ++ [⟨.colon, [':']⟩], fun s => ?_, fun nodes' semicolon outer' houter => ?_⟩
  · exact (lexes_colon hus s).append (lexes_stop rfl s)
  · rw [show outer.isEmpty = r.outer.isEmpty from hempty] at houter
    rw [List.foldl_append, hread nodes' semicolon outer' houter]
    exact hmoved nodes' semicolon outer' houter

end Reader

/-! ## Edits that can be read again -/

/-- How the text goes on where an item ends: with its `;`, or where its body ends. -/
inductive Ending : Bool → Text → Prop where
  | semicolon (rest : Text) : Ending true (';' :: rest)
  | brace (rest : Text) : Ending false ('}' :: rest)
  | text : Ending false []

/-- Some tokens behind the colon, in front of `rest`, read as these nodes, once the last of them
ends as the item does, with the blanks of the item behind it. -/
def OpenValue.Spells (o : OpenValue) (top : Bool) (value : Text) (terminated : Bool) (rest : Text)
    (new : List Node) : Prop :=
  ∃ (ws : List Token) (o' : OpenValue) (value' : Text) (front : List Node) (stack : List Bracket),
    Lexes ws rest ∧
      (∀ nodes outer, outer.isEmpty = top → ws.foldl Reader.step (o.reader [] nodes outer []) =
        o'.reader value' (nodes ++ front) outer stack) ∧
      new = front ++ [.declaration (o'.declaration value' terminated)] ∧
      (rest ≠ [] → stack = []) ∧
      (terminated = false → Text.blankEnd value' = Text.blankEnd value)

/-- What may stand in the place of a declaration can be read from the text of its item. At the end
of the text brackets may be open in the item, unless all are closed. -/
def Spellable (E : Declaration → List Node → Prop) (closed : Prop) : Prop :=
  ∀ (o : OpenValue) (top : Bool) (us vs : List Token) (stack : List Bracket) (terminated : Bool)
    (rest : Text) (new : List Node), o.Inside top us vs stack rest → Ending terminated rest →
    (rest ≠ [] ∨ closed → stack = []) → E (o.declaration (join vs) terminated) new →
    o.Spells top (join vs) terminated rest new

/-! ## Reading again -/

namespace Reader

/-- Some text in front of `rest` reads as this. -/
def Reads (r : Reader) (rest : Text) : Prop := ∃ ts, ts.foldl step start = r ∧ Lexes ts rest

theorem Reads.append {r : Reader} {ts : List Token} {rest : Text} (h : r.Reads (join ts ++ rest))
    (hts : Lexes ts rest) : (ts.foldl step r).Reads rest := by
  obtain ⟨us, hus, hlex⟩ := h
  refine ⟨us ++ ts, ?_, hlex.append hts⟩
  rw [List.foldl_append, hus]

theorem Reads.append_token {r : Reader} {t : Token} {rest : Text} (h : r.Reads (t.source ++ rest))
    (ht : Lexes [t] rest) : (r.step t).Reads rest := by
  have h : r.Reads (join [t] ++ rest) := by simpa [join] using h
  exact h.append ht

theorem Reads.append_value {o : OpenValue} {top : Bool} {us vs : List Token}
    {stack : List Bracket} {rest : Text} (hin : o.Inside top us vs stack rest) {nodes : List Node}
    {outer : List Level} (houter : outer.isEmpty = top)
    (h : ∀ s, (o.reader [] nodes outer []).Reads s) :
    (o.reader (join vs) nodes outer stack).Reads rest := by
  rw [← hin.foldl nodes houter]
  exact (h _).append hin.lexes

/-- What an item spells stands behind what reads in front of its value. -/
theorem Reads.append_spelling {o : OpenValue} {top : Bool} {value : Text} {terminated : Bool}
    {rest : Text} {new : List Node} (hspells : o.Spells top value terminated rest new)
    {nodes : List Node} {outer : List Level} (houter : outer.isEmpty = top)
    (h : ∀ s, (o.reader [] nodes outer []).Reads s) :
    ∃ (o' : OpenValue) (value' : Text) (front : List Node) (stack : List Bracket),
      (o'.reader value' (nodes ++ front) outer stack).Reads rest ∧
        new = front ++ [.declaration (o'.declaration value' terminated)] ∧
        (rest ≠ [] → stack = []) ∧
        (terminated = false → Text.blankEnd value' = Text.blankEnd value) := by
  obtain ⟨ws, o', value', front, stack, hws, hread, hnew, hstack, hblank⟩ := hspells
  refine ⟨o', value', front, stack, ?_, hnew, hstack, hblank⟩
  rw [← hread nodes outer houter]
  exact (h _).append hws

variable {E : Declaration → List Node → Prop} {closed : Prop} {r : Reader} {t : Token} {rest : Text}

/-- However the declarations in what the reader has read are edited, some text in front of `rest`
reads as that. Of an open value the tokens are known, and the text in front of it may stand in front
of any value. -/
inductive Rereads (E : Declaration → List Node → Prop) : Reader → Text → Prop where
  | plain {r : Reader} {rest : Text} (hr : ¬r.HasValue) (hled : r.Led rest)
    (h : ∀ r', r.Edited E r' → r'.Reads rest) : Rereads E r rest
  | value {o : OpenValue} {nodes : List Node} {outer : List Level} {us vs : List Token}
    {stack : List Bracket} {rest : Text} (hin : o.Inside outer.isEmpty us vs stack rest)
    (h : ∀ r', (o.reader [] nodes outer []).Edited E r' → ∀ s, r'.Reads s) :
    Rereads E (o.reader (join vs) nodes outer stack) rest

theorem rereads_start (E : Declaration → List Node → Prop) (rest : Text) :
    Rereads E start rest := by
  refine .plain ?_ (.of_begins ⟨rfl, rfl⟩ rest) fun r' hr' => ?_
  · rintro ⟨before, name, value, h⟩
    cases h
  · obtain ⟨here', outer', skipped'⟩ := r'
    obtain ⟨hhere, houter, rfl⟩ := hr'
    obtain rfl := hhere.start_inv
    cases houter
    exact ⟨[], rfl, lexes_nil rest⟩

/-- A `;` ends the item as whatever stands in its place is ended. -/
theorem rereads_semicolon (hE : Spellable E closed) {o : OpenValue} {nodes : List Node}
    {outer : List Level} {us vs : List Token}
    (hin : o.Inside outer.isEmpty us vs [] (';' :: rest))
    (h : ∀ r', (o.reader [] nodes outer []).Edited E r' → ∀ s, r'.Reads s) {r₂ : Reader}
    (hr₂ : ((o.reader (join vs) nodes outer []).step ⟨.semicolon, [';']⟩).Edited E r₂) :
    r₂.Reads rest := by
  rw [OpenValue.step_semicolon _ _ _ _ rfl] at hr₂
  obtain ⟨⟨nodes₂, reading₂⟩, outer₂, skipped₂⟩ := r₂
  obtain ⟨⟨hnodes, hreading⟩, houter, hskipped⟩ := hr₂
  dsimp only at hnodes hreading houter hskipped
  subst hreading hskipped
  obtain ⟨nodes₁, new, rfl, hnodes₁, hnew⟩ := hnodes.append_inv
  have hspells := hE o _ us vs [] true _ new hin (.semicolon rest) (fun _ => rfl)
    hnew.declaration_inv
  have hempty : outer₂.isEmpty = outer.isEmpty := by cases houter <;> rfl
  obtain ⟨o', value', front, stack, hreads, rfl, hstack, -⟩ :=
    Reads.append_spelling hspells hempty (h _ ⟨⟨hnodes₁, rfl⟩, houter, rfl⟩)
  obtain rfl : stack = [] := hstack (by simp)
  have hreads := hreads.append_token (t := ⟨.semicolon, [';']⟩) (lexes_stop rfl rest)
  rwa [OpenValue.step_semicolon _ _ _ _ rfl, List.append_assoc] at hreads

/-- A block behind a value leaves the text in front of it as it is. -/
theorem rereads_block {o : OpenValue} {nodes : List Node} {outer : List Level}
    {us vs : List Token} (hin : o.Inside outer.isEmpty us vs [] ('{' :: rest))
    (h : ∀ r', (o.reader [] nodes outer []).Edited E r' → ∀ s, r'.Reads s) {r₂ : Reader}
    (hr₂ : ((o.reader (join vs) nodes outer []).step ⟨.opening .curly, ['{']⟩).Edited E r₂) :
    r₂.Reads rest := by
  obtain ⟨here₁, outer₁, ⟨hnodes, hreading⟩, houter, rfl⟩ := Edited.start_inv hr₂
  obtain ⟨nodes₁, reading₁⟩ := here₁
  dsimp only at hnodes hreading
  subst hreading
  have hempty : outer₁.isEmpty = outer.isEmpty := by cases houter <;> rfl
  have hreads := Reads.append_value hin hempty (h _ ⟨⟨hnodes, rfl⟩, houter, rfl⟩)
  exact hreads.append_token (t := ⟨.opening .curly, ['{']⟩) (lexes_stop rfl rest)

/-- The end of a body ends the item in it as whatever stands in its place is ended. -/
theorem rereads_brace (hE : Spellable E closed) {o : OpenValue} {nodes : List Node}
    {parent : Level} {outer : List Level} {us vs : List Token}
    (hin : o.Inside false us vs [] ('}' :: rest))
    (h : ∀ r', (o.reader [] nodes (parent :: outer) []).Edited E r' → ∀ s, r'.Reads s)
    {r₂ : Reader} (hr₂ : ((o.reader (join vs) nodes (parent :: outer) []).step
      ⟨.closing .curly, ['}']⟩).Edited E r₂) : r₂.Reads rest := by
  obtain ⟨here₂, outer₂, skipped₂⟩ := r₂
  obtain ⟨hhere, houter, hskipped⟩ := hr₂
  dsimp only at hhere houter hskipped
  obtain ⟨parent₁, nodes₂, hparent, hnodes, rfl⟩ := Level.Edited.close_inv hhere
  obtain ⟨nodes₁, new, rfl, hnodes₁, hnew⟩ := OpenValue.body_inv hnodes
  have hspells := hE o _ us vs [] false _ new hin (.brace rest) (fun _ => rfl) hnew
  have hempty : (parent₁ :: outer₂).isEmpty = false := rfl
  obtain ⟨o', value', front, stack, hreads, rfl, hstack, hblank⟩ :=
    Reads.append_spelling hspells hempty (h _ ⟨⟨hnodes₁, rfl⟩, .cons hparent houter, rfl⟩)
  obtain rfl : stack = [] := hstack (by simp)
  have hreads := hreads.append_token (t := ⟨.closing .curly, ['}']⟩) (lexes_stop rfl rest)
  change Reads ⟨parent₁.close { (o.level (join vs) nodes).body with
    nodes := nodes₁ ++ (front ++ [.declaration (o'.declaration value' false)]) },
      outer₂, skipped₂⟩ rest
  rw [← OpenValue.body_edited (hblank rfl), show skipped₂ = [] from hskipped]
  exact hreads

/-- A token keeps what can be read again. -/
theorem rereads_step (hE : Spellable E closed) (h : Rereads E r (t.source ++ rest))
    (ht : Lexes [t] rest) : Rereads E (r.step t) rest := by
  have hspelled : t.Spelled := ht.spelled t (by simp)
  generalize hrest : t.source ++ rest = all at h
  cases h with
  | @plain r _ hr hled h =>
    subst hrest
    by_cases hvalue : (r.step t).HasValue
    · obtain ⟨rfl, o, nodes, outer, hstep⟩ := colon_of_hasValue hspelled hr hvalue
      obtain ⟨us, hus⟩ := hled.colon hstep
      rw [hstep]
      change Rereads E (o.reader (join []) nodes outer []) rest
      refine .value ⟨hus, lexes_nil rest, rfl⟩ fun r₂ hr₂ s => ?_
      rw [← hstep] at hr₂
      obtain ⟨r₁, hr₁, rfl⟩ := step_edited hr hr₂
      obtain ⟨ts, hts, hlex⟩ := h r₁ hr₁
      exact Reads.append_token ⟨ts, hts, lexes_colon hlex s⟩ (lexes_stop rfl s)
    · refine .plain hvalue (hled.step ht) fun r₂ hr₂ => ?_
      obtain ⟨r₁, hr₁, rfl⟩ := step_edited hr hr₂
      exact (h r₁ hr₁).append_token ht
  | @value o nodes outer us vs stack _ hin h =>
    subst hrest
    cases hnext : passAll outer.isEmpty stack t.kind.marks with
    | some stack' =>
      have hjoin : join vs ++ t.source = join (vs ++ [t]) := by simp [join]
      rw [OpenValue.step_of_pass hspelled hnext, hjoin]
      refine .value ⟨hin.led, lexes_append_iff.mpr ⟨by simpa [join] using hin.lexes, ht⟩, ?_⟩ h
      rw [List.flatMap_append, passAll_append, hin.pass]
      simpa using hnext
    | none =>
      have hvalue : ¬((o.reader (join vs) nodes outer stack).step t).HasValue :=
        not_hasValue_step hnext
      obtain ⟨rfl, hk⟩ := OpenValue.ends_of_pass hnext
      obtain ⟨kind, source⟩ := t
      dsimp only at hk
      rcases hk with rfl | rfl | ⟨rfl, htop⟩
      · obtain rfl : source = [';'] := by simpa [Spelled] using hspelled
        refine .plain hvalue (.of_begins ?_ rest) fun r₂ hr₂ => rereads_semicolon hE hin h hr₂
        rw [OpenValue.step_semicolon _ _ _ _ rfl]
        exact ⟨rfl, rfl⟩
      · obtain rfl : source = ['{'] := by simpa [Spelled, Bracket.opener] using hspelled
        exact .plain hvalue (.of_begins ⟨rfl, rfl⟩ rest) fun r₂ hr₂ => rereads_block hin h hr₂
      · obtain rfl : source = ['}'] := by simpa [Spelled, Bracket.closer] using hspelled
        cases outer with
        | nil => cases htop
        | cons parent outer =>
          exact .plain hvalue (.of_begins ⟨rfl, rfl⟩ rest) fun r₂ hr₂ => rereads_brace hE hin h hr₂

theorem rereads_foldl (hE : Spellable E closed) {ts : List Token} (h : Lexes ts rest) :
    Rereads E (ts.foldl step start) rest := by
  induction ts using List.reverseRecOn generalizing rest with
  | nil => exact rereads_start E rest
  | append_singleton ts t ih =>
    obtain ⟨hts, ht⟩ := lexes_append_iff.mp h
    rw [List.foldl_append]
    exact rereads_step hE (by simpa [join] using ih hts) ht

/-! ## The end of the text -/

/-- When the text ends outside blocks, what was read ends with its declarations edited in some text
too. -/
theorem Rereads.finish (hE : Spellable E closed) (h : Rereads E r []) (houter : r.outer = [])
    (hclosed : closed → r.skipped = []) {nodes : List Node}
    (hnodes : Relength.Edited E r.finish.nodes nodes) :
    ∃ ts, Lexes ts [] ∧ (ts.foldl step start).outer = [] ∧
      (ts.foldl step start).finish = { r.finish with nodes := nodes } := by
  have hbody : r.finish = r.here.body := by rw [Reader.finish, houter]; rfl
  obtain ⟨here₁, stack, ⟨ts, hts, hlex⟩, hend⟩ : ∃ here₁ stack, Reads ⟨here₁, [], stack⟩ [] ∧
      here₁.body = { r.here.body with nodes := nodes } := by
    rw [hbody] at hnodes
    cases h with
    | plain hvalue _ h =>
      obtain ⟨here₁, hhere, hend⟩ := Level.Edited.body_inv hvalue hnodes
      exact ⟨here₁, r.skipped, h _ ⟨hhere, by rw [houter]; exact .nil, rfl⟩, hend⟩
    | @value o nodes₀ outer us vs stack _ hin h =>
      obtain rfl : outer = [] := houter
      obtain ⟨nodes₁, new, rfl, hnodes₁, hnew⟩ := OpenValue.body_inv hnodes
      have hspells := hE o _ us vs stack false [] new hin .text
        (fun hc => hclosed (hc.resolve_left (by simp))) hnew
      have hempty : ([] : List Level).isEmpty = true := rfl
      obtain ⟨o', value', front, stack', hreads, rfl, -, hblank⟩ :=
        Reads.append_spelling hspells hempty (h _ ⟨⟨hnodes₁, rfl⟩, .nil, rfl⟩)
      exact ⟨_, stack', hreads, OpenValue.body_edited (hblank rfl) nodes₀ nodes₁ front⟩
  refine ⟨ts, hlex, ?_, ?_⟩
  · rw [hts]
  · rw [hts, hbody, ← hend]
    rfl

end Reader

/-- A sheet whose text leaves no block open, and in which declarations were edited in ways that can
be read from the text, is read back from its text. -/
theorem Sheet.parse_render_edited {E : Declaration → List Node → Prop} {closed : Prop}
    (hE : Spellable E closed) {css : Text} {path : Option Text} {nodes : List Node}
    (houter : ((tokenize css).foldl Reader.step .start).outer = [])
    (hclosed : closed → ((tokenize css).foldl Reader.step .start).skipped = [])
    (h : Edited E (parse css path).nodes nodes) :
    parse ({ parse css path with nodes := nodes } : Sheet).render path =
      { parse css path with nodes := nodes } := by
  have hparse (css : Text) : parse css path =
      { ((tokenize css).foldl Reader.step .start).finish with path := path } := by
    rw [parse, Component.ofText, Body.ofComponents_ofTokens]
  rw [hparse css] at h ⊢
  obtain ⟨ts, hts, houter', hfinish⟩ :=
    (Reader.rereads_foldl hE (lexes_tokenize css)).finish hE houter hclosed h
  have hrender : (ts.foldl Reader.step .start).finish.render = join ts := by
    rw [Reader.render_foldl hts.spelled, houter']
    simp
  rw [hfinish] at hrender
  rw [Sheet.render, hrender, hparse, hts.tokenize_join, hfinish]

end Relength
