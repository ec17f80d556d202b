import Relength.Length.Px
import Relength.Proofs.Lexer.Tokens

/-!
# Lengths among the flat tokens

The scan for lengths goes down into the blocks of a text. `Token.located` goes through the flat
tokens instead, every bracket one of them, and keeps the openers of the open blocks on a stack: a
token is located in a url or outside.

* `Component.located_ofTokens`: matching the blocks first locates the tokens the same way;
* `replacePxWith`: the scan with a replacement that keeps a state from one length to the next;
* `replacePx_located`: the scan calls the replacement for the lengths outside urls, one by one.
-/

namespace Relength

namespace Token

/-- The openers of the blocks that are open behind a token, innermost first. -/
def enclose (around : List Token) (t : Token) : List Token :=
  if t.opens?.isSome then t :: around
  else
    match around with
    | [] => []
    | o :: outer => if t.closes? = o.opens? then outer else o :: outer

/-- The openers around what follows some tokens. -/
abbrev encloseAll (around : List Token) (ts : List Token) : List Token := ts.foldl enclose around

theorem encloseAll_append (around ts us : List Token) :
    encloseAll around (ts ++ us) = encloseAll (encloseAll around ts) us :=
  List.foldl_append

theorem encloseAll_append_singleton (around ts : List Token) (t : Token) :
    encloseAll around (ts ++ [t]) = t.enclose (encloseAll around ts) := encloseAll_append _ _ _

/-- Each token, and whether a url is open around it. -/
def located (around : List Token) : List Token → List (Token × Bool)
  | [] => []
  | t :: ts => (t, around.any opensUrl) :: located (t.enclose around) ts

theorem located_append (around ts us : List Token) :
    located around (ts ++ us) = located around ts ++ located (encloseAll around ts) us := by
  induction ts generalizing around with
  | nil => rfl
  | cons t ts ih => exact congrArg (_ :: ·) (ih (t.enclose around))

theorem map_fst_located (around ts : List Token) : (located around ts).map Prod.fst = ts := by
  induction ts generalizing around with
  | nil => rfl
  | cons t ts ih => exact congrArg (t :: ·) (ih (t.enclose around))

/-- Where a token stands is told by the openers that the tokens in front leave open. -/
theorem getElem?_located (ts : List Token) (i : Nat) :
    (located [] ts)[i]? = ts[i]?.map fun t => (t, (encloseAll [] (ts.take i)).any opensUrl) := by
  by_cases hi : i < ts.length
  · have hsplit : ts = ts.take i ++ ts[i] :: ts.drop (i + 1) := by simp
    have hlength : (located [] (ts.take i)).length = i := by
      rw [← List.length_map (f := Prod.fst), map_fst_located, List.length_take]
      omega
    conv_lhs => rw [hsplit, located_append, located]
    simp [hlength, hi]
  · have hlength : (located [] ts).length ≤ i := by
      rw [← List.length_map (f := Prod.fst), map_fst_located]
      omega
    rw [List.getElem?_eq_none hlength, List.getElem?_eq_none (by omega)]
    rfl

/-- The number of the length that is called there: a `px` dimension that is spelled so, in no
url. -/
def lengthAt? (p : Token × Bool) : Option Text := if p.2 then none else p.1.pxNumber?

theorem pxNumber?_eq_some_iff {t : Token} {number : Text} :
    t.pxNumber? = some number ↔ t.kind = .dimension px ∧ t.source = number ++ px := by
  constructor
  · intro h
    exact ⟨kind_of_pxNumber? h, (append_px_of_pxNumber? h).symm⟩
  · rintro ⟨hkind, hsource⟩
    have hpx : (t.isPx && px.isSuffixOf t.source) = true := by
      simp [isPx, hkind, hsource]
    rw [pxNumber?, if_pos hpx, hsource]
    simp

theorem pxNumber?_of_opens {t : Token} (h : t.opens?.isSome = true) : t.pxNumber? = none := by
  have hkind : t.isPx = false := by
    unfold opens? at h
    unfold isPx
    split at h <;> simp_all
  simp [pxNumber?, hkind]

theorem pxNumber?_of_closes {t : Token} {b : Bracket} (h : t.closes? = some b) :
    t.pxNumber? = none := by
  have hkind : t.isPx = false := by simp [isPx, closes?_eq_some_iff.mp h]
  simp [pxNumber?, hkind]

/-- A length among the tokens shows in their text. -/
theorem hasPxText_of_pxNumber? {ts : List Token} {t : Token} {number : Text} (ht : t ∈ ts)
    (hpx : t.pxNumber? = some number) : hasPxText (join ts) = true := by
  rw [hasPxText, Text.occursIn_iff]
  obtain ⟨front, back, rfl⟩ := List.append_of_mem ht
  refine ⟨join front ++ number, join back, ?_⟩
  rw [join_append, join_cons, ← append_px_of_pxNumber? hpx]
  simp only [List.append_assoc]

end Token

/-! ## Blocks and flat tokens -/

namespace Component

/-- Each token of the components, and whether it stands in a url. -/
def located (url : Bool) : List Component → List (Token × Bool)
  | [] => []
  | .token t :: rest => (t, url) :: located url rest
  | .block opener content closer :: rest =>
    (opener, url) :: (located (opener.opensUrl || url) content ++
      closer.toList.map (·, opener.opensUrl || url) ++ located url rest)

theorem located_append (url : Bool) (a b : List Component) :
    located url (a ++ b) = located url a ++ located url b := by
  fun_induction located url a with
  | case1 => rfl
  | case2 url t rest ih => rw [List.cons_append, located, ih, List.cons_append]
  | case3 url opener content closer rest _ ih =>
    rw [List.cons_append, located, ih]
    simp only [List.cons_append, List.append_assoc]

/-- The blocks start at openers and end at closers. -/
inductive Matched : List Component → Prop
  | nil : Matched []
  | token (t : Token) {rest : List Component} (hrest : Matched rest) : Matched (.token t :: rest)
  | block {opener : Token} {content : List Component} {closer : Option Token}
    {rest : List Component} (hopener : opener.opens?.isSome = true)
    (hcloser : ∀ t ∈ closer, ∃ b, t.closes? = some b) (hcontent : Matched content)
    (hrest : Matched rest) : Matched (.block opener content closer :: rest)

theorem Matched.append {a b : List Component} (ha : Matched a) (hb : Matched b) :
    Matched (a ++ b) := by
  induction ha with
  | nil => exact hb
  | token t _ ih => exact .token t ih
  | block hopener hcloser hcontent _ _ ih => exact .block hopener hcloser hcontent ih

theorem Matched.reverse {cs : List Component} (h : Matched cs) : Matched cs.reverse := by
  induction h with
  | nil => exact .nil
  | token t _ ih =>
    rw [List.reverse_cons]
    exact ih.append (.token t .nil)
  | block hopener hcloser hcontent _ _ ih =>
    rw [List.reverse_cons]
    exact ih.append (.block hopener hcloser hcontent .nil)

namespace Nesting

/-- The openers of the open blocks, innermost first. -/
def openers (n : Nesting) : List Token := n.frames.map Frame.opener

/-- What has been read, token by token. -/
def located (done : List Component) : List Frame → List (Token × Bool)
  | [] => Component.located false done.reverse
  | frame :: frames =>
    located frame.before frames ++ (frame.opener, frames.any (·.opener.opensUrl)) ::
      Component.located ((frame :: frames).any (·.opener.opensUrl)) done.reverse

/-- What is closed has been matched. -/
def Matched (n : Nesting) : Prop :=
  Component.Matched n.done ∧ ∀ f ∈ n.frames, Component.Matched f.before

theorem any_openers (n : Nesting) :
    n.openers.any Token.opensUrl = n.frames.any (·.opener.opensUrl) := by
  rw [openers, List.any_map]
  rfl

theorem located_add (c : Component) (done : List Component) (frames : List Frame) :
    located (c :: done) frames =
      located done frames ++ Component.located (frames.any (·.opener.opensUrl)) [c] := by
  cases frames with
  | nil => simp [located, located_append]
  | cons frame frames => simp [located, located_append]

theorem located_close (frame : Frame) (done : List Component) (closer : Option Token)
    (frames : List Frame) :
    located (.block frame.opener done.reverse closer :: frame.before) frames =
      located done (frame :: frames) ++
        closer.toList.map (·, (frame :: frames).any (·.opener.opensUrl)) := by
  rw [located_add, Component.located, located, List.any_cons]
  simp [Component.located]

/-- A token is located on the spot. -/
theorem located_step {n : Nesting} (h : Reader.Sound n) (t : Token) :
    located (n.step t).done (n.step t).frames =
        located n.done n.frames ++ [(t, n.openers.any Token.opensUrl)] ∧
      (n.step t).openers = t.enclose n.openers := by
  have hadd : located (n.add (.token t)).done (n.add (.token t)).frames =
      located n.done n.frames ++ [(t, n.openers.any Token.opensUrl)] := by
    rw [any_openers]
    refine (located_add (.token t) n.done n.frames).trans ?_
    simp [Component.located]
  obtain ⟨done, frames⟩ := n
  unfold step
  cases hopens : t.opens? with
  | some b =>
    refine ⟨?_, by simp [openers, Token.enclose, hopens]⟩
    simp [located, Component.located, any_openers]
  | none =>
    cases frames with
    | nil => exact ⟨hadd, by simp [openers, add, Token.enclose, hopens]⟩
    | cons frame frames =>
      have hframe := h frame (by simp)
      dsimp only
      split
      · next hcloses =>
        refine ⟨?_, by simp [openers, close, Token.enclose, hopens, hcloses, hframe]⟩
        rw [any_openers]
        exact (located_close frame done (some t) frames).trans (by simp)
      · next hcloses =>
        exact ⟨hadd, by simp [openers, add, Token.enclose, hopens, hcloses, hframe]⟩

theorem located_foldl {n : Nesting} (h : Reader.Sound n) (ts : List Token) :
    located (ts.foldl step n).done (ts.foldl step n).frames =
      located n.done n.frames ++ Token.located n.openers ts := by
  induction ts generalizing n with
  | nil => simp [Token.located]
  | cons t ts ih =>
    obtain ⟨hlocated, hopeners⟩ := located_step h t
    rw [List.foldl_cons, ih (Reader.sound_step h t), hlocated, hopeners, Token.located,
      List.append_assoc]
    rfl

theorem located_finish (n : Nesting) :
    Component.located false n.finish = located n.done n.frames := by
  obtain ⟨done, frames⟩ := n
  induction frames generalizing done with
  | nil => rfl
  | cons frame frames ih =>
    have hfinish : finish ⟨done, frame :: frames⟩ =
        finish ⟨.block frame.opener done.reverse none :: frame.before, frames⟩ := rfl
    rw [hfinish, ih, located_close]
    simp

theorem Matched.close {done : List Component} {frame : Frame} {frames : List Frame}
    (hs : Reader.Sound ⟨done, frame :: frames⟩) (h : Matched ⟨done, frame :: frames⟩)
    {closer : Option Token} (hcloser : ∀ t ∈ closer, ∃ b, t.closes? = some b) :
    Component.Matched (.block frame.opener done.reverse closer :: frame.before) := by
  have hopener : frame.opener.opens?.isSome = true := by simp [hs frame (by simp)]
  exact .block hopener hcloser h.1.reverse (h.2 frame (by simp))

theorem Matched.step {n : Nesting} (hs : Reader.Sound n) (h : n.Matched) (t : Token) :
    (n.step t).Matched := by
  obtain ⟨done, frames⟩ := n
  obtain ⟨hdone, hframes⟩ := h
  unfold Nesting.step
  split
  · exact ⟨.nil, List.forall_mem_cons.mpr ⟨hdone, hframes⟩⟩
  · cases frames with
    | nil => exact ⟨.token t hdone, hframes⟩
    | cons frame frames =>
      dsimp only
      split
      · next hcloses =>
        refine ⟨Matched.close hs ⟨hdone, hframes⟩ ?_, (List.forall_mem_cons.mp hframes).2⟩
        simp [hcloses]
      · exact ⟨.token t hdone, hframes⟩

theorem Matched.finish {n : Nesting} (hs : Reader.Sound n) (h : n.Matched) :
    Component.Matched n.finish := by
  obtain ⟨done, frames⟩ := n
  induction frames generalizing done with
  | nil => exact h.1.reverse
  | cons frame frames ih =>
    have hclose : Matched ⟨.block frame.opener done.reverse none :: frame.before, frames⟩ :=
      ⟨Matched.close hs h (by simp), (List.forall_mem_cons.mp h.2).2⟩
    exact ih _ (fun f hf => hs f (List.mem_cons_of_mem frame hf)) hclose

end Nesting

/-- Matching the blocks first does not change where a token stands. -/
theorem located_ofTokens (ts : List Token) :
    located false (ofTokens ts) = Token.located [] ts := by
  rw [ofTokens, Nesting.located_finish, Nesting.located_foldl fun frame hframe => by cases hframe]
  simp [Nesting.located, Nesting.start, located, Nesting.openers]

theorem matched_ofTokens (ts : List Token) : Matched (ofTokens ts) := by
  have hfoldl : (ts.foldl Nesting.step .start).Matched := by
    induction ts using List.reverseRecOn with
    | nil => exact ⟨.nil, by intro f hf; cases hf⟩
    | append_singleton ts t ih =>
      rw [List.foldl_append]
      exact ih.step (Reader.sound_foldl ts).1 t
  exact hfoldl.finish (Reader.sound_foldl ts).1

end Component

/-! ## Replacing lengths one by one -/

section Effects

variable {m : Type → Type} [Monad m] (f : Text → m Text)

namespace Token

/-- The text in the place of a token: that of a length, by its number, or its own. -/
def textWith (p : Token × Bool) : m Text := ((lengthAt? p).map f).getD (pure p.1.source)

/-- The texts in the places of tokens, one behind the other. -/
def textsWith (ps : List (Token × Bool)) : m Text := List.flatten <$> ps.mapM (textWith f)

end Token

/-- The scan for lengths, with a replacement that has effects. -/
def Component.replacePxWith : List Component → m Text
  | [] => pure []
  | .token t :: rest => do
    let now ← (t.pxNumber?.map f).getD (pure t.source)
    let later ← replacePxWith rest
    pure (now ++ later)
  | .block opener content closer :: rest => do
    let inside ← (if opener.opensUrl then pure (source content) else replacePxWith content)
    let later ← replacePxWith rest
    pure (opener.source ++ inside ++ Token.join closer.toList ++ later)

/-- A text with its lengths replaced, by their numbers, by a replacement that has effects. -/
def replacePxWith (s : Text) : m Text :=
  if hasPxText s then Component.replacePxWith f (Component.ofText s) else pure s

/-- Without effects it is the scan of the program. -/
theorem Component.replacePxWith_id (f : Text → Text) (cs : List Component) :
    replacePxWith (m := Id) f cs = replacePx f cs := by
  fun_induction replacePx f cs with
  | case1 =>
    rw [replacePxWith]
    rfl
  | case2 t rest ih =>
    rw [replacePxWith, ih]
    cases t.pxNumber? <;> rfl
  | case3 opener content closer rest hcontent ih =>
    rw [replacePxWith, ih, hcontent]
    split <;> rfl

theorem replacePxWith_id (f : Text → Text) (s : Text) :
    replacePxWith (m := Id) f s = replacePx f s := by
  rw [replacePxWith, replacePx, Component.replacePxWith_id]
  rfl

variable [LawfulMonad m]

namespace Token

theorem textsWith_append (a b : List (Token × Bool)) :
    textsWith f (a ++ b) = (do
      let x ← textsWith f a
      let y ← textsWith f b
      return x ++ y) := by
  simp [textsWith]

theorem textsWith_cons (p : Token × Bool) (ps : List (Token × Bool)) :
    textsWith f (p :: ps) = (do
      let x ← textWith f p
      let y ← textsWith f ps
      return x ++ y) := by
  simp [textsWith]

/-- Where no length is called, the text stays. -/
theorem textsWith_of_none {ps : List (Token × Bool)} (h : ∀ p ∈ ps, lengthAt? p = none) :
    textsWith f ps = pure (join (ps.map Prod.fst)) := by
  induction ps with
  | nil => simp [textsWith, join]
  | cons p ps ih =>
    have hp : textWith f p = pure p.1.source := by simp [textWith, h p (by simp)]
    rw [textsWith_cons, hp, ih fun q hq => h q (by simp [hq])]
    simp

end Token

namespace Component

theorem map_fst_located (url : Bool) (cs : List Component) :
    (located url cs).map Prod.fst = tokens cs := by
  fun_induction located url cs with
  | case1 => simp [tokens]
  | case2 url t rest ih => simp [tokens, ih]
  | case3 url opener content closer rest ih₁ ih₂ => simp [tokens, ih₁, ih₂, Function.comp_def]

theorem snd_located_true (cs : List Component) : ∀ p ∈ located true cs, p.2 = true := by
  generalize hurl : true = url
  fun_induction located url cs with
  | case1 => simp
  | case2 url t rest ih => simpa [hurl] using ih hurl
  | case3 url opener content closer rest ih₁ ih₂ =>
    subst hurl
    simp only [Bool.or_true] at ih₁ ⊢
    simp only [List.mem_cons, List.mem_append, List.mem_map]
    rintro p (rfl | (hp | ⟨t, -, rfl⟩) | hp)
    · rfl
    · exact ih₁ trivial p hp
    · rfl
    · exact ih₂ rfl p hp

/-- The scan takes the tokens one by one, as they are located. -/
theorem Matched.replacePxWith_located {cs : List Component} (h : Matched cs) :
    replacePxWith f cs = Token.textsWith f (located false cs) := by
  induction h with
  | nil =>
    rw [replacePxWith, located]
    simp [Token.textsWith]
  | token t _ ih =>
    rw [replacePxWith, located, Token.textsWith_cons, ih]
    rfl
  | @block opener content closer rest hopener hcloser _ _ ih₁ ih₂ =>
    have hopener' : Token.textWith f (opener, false) = pure opener.source := by
      simp [Token.textWith, Token.lengthAt?, Token.pxNumber?_of_opens hopener]
    have hcontent : Token.textsWith f (located opener.opensUrl content) =
        if opener.opensUrl then pure (source content) else replacePxWith f content := by
      split
      · next hurl =>
        rw [hurl, Token.textsWith_of_none, map_fst_located]
        · rfl
        · intro p hp
          simp [Token.lengthAt?, snd_located_true content p hp]
      · next hurl => rw [ih₁, Bool.eq_false_iff.mpr hurl]
    have hclosers : Token.textsWith f (closer.toList.map (·, opener.opensUrl)) =
        pure (Token.join closer.toList) := by
      rw [Token.textsWith_of_none]
      · simp [Function.comp_def]
      · intro p hp
        obtain ⟨t, ht, rfl⟩ := List.mem_map.mp hp
        obtain ⟨b, hb⟩ := hcloser t (by simpa using ht)
        simp [Token.lengthAt?, Token.pxNumber?_of_closes hb]
    rw [replacePxWith, located, Bool.or_false, Token.textsWith_cons,
      Token.textsWith_append, Token.textsWith_append, hopener', hcontent, hclosers, ih₂]
    simp

/-- The scan counts the lengths as they are located. -/
theorem Matched.lengthTokens_located {cs : List Component} (h : Matched cs) :
    (lengthTokens cs).filterMap Token.pxNumber? =
      (located false cs).filterMap Token.lengthAt? := by
  induction h with
  | nil => simp [lengthTokens, located]
  | token t _ ih =>
    rw [lengthTokens, located, List.filterMap_cons, List.filterMap_cons, ih]
    rfl
  | @block opener content closer rest hopener hcloser _ _ ih₁ ih₂ =>
    have hopener' : Token.lengthAt? (opener, false) = none := Token.pxNumber?_of_opens hopener
    have hcontent : (if opener.opensUrl then [] else lengthTokens content).filterMap
        Token.pxNumber? = (located opener.opensUrl content).filterMap Token.lengthAt? := by
      split
      · next hurl =>
        rw [hurl, List.filterMap_nil, eq_comm, List.filterMap_eq_nil_iff]
        intro p hp
        simp [Token.lengthAt?, snd_located_true content p hp]
      · next hurl => rw [ih₁, Bool.eq_false_iff.mpr hurl]
    have hclosers : closer.toList.filterMap Token.pxNumber? = [] ∧
        (closer.toList.map (·, opener.opensUrl)).filterMap Token.lengthAt? = [] := by
      rcases closer with _ | t
      · exact ⟨rfl, rfl⟩
      · obtain ⟨b, hb⟩ := hcloser t rfl
        simp [Token.lengthAt?, Token.pxNumber?_of_closes hb]
    rw [lengthTokens, located, Bool.or_false, List.filterMap_cons, List.filterMap_cons,
      Token.pxNumber?_of_opens hopener, hopener']
    simp only [List.filterMap_append, hcontent, hclosers, ih₂]

end Component

namespace Token

theorem lengthAt?_eq_some_iff {p : Token × Bool} {number : Text} :
    lengthAt? p = some number ↔
      p.2 = false ∧ p.1.kind = .dimension px ∧ p.1.source = number ++ px := by
  rw [lengthAt?, ← pxNumber?_eq_some_iff]
  cases p.2 <;> simp

/-- In a text without the letters no length is called. -/
theorem lengthAt?_eq_none {s : Text} (h : hasPxText s = false) :
    ∀ p ∈ located [] (tokenize s), lengthAt? p = none := by
  intro p hp
  refine Option.eq_none_iff_forall_ne_some.mpr fun number hnumber => ?_
  have hmem : p.1 ∈ tokenize s := by
    rw [← map_fst_located [] (tokenize s)]
    exact List.mem_map_of_mem hp
  obtain ⟨-, hpx⟩ := lengthAt?_eq_some_iff.mp hnumber
  have hletters := hasPxText_of_pxNumber? hmem (pxNumber?_eq_some_iff.mpr hpx)
  rw [join_tokenize, h] at hletters
  cases hletters

end Token

open Token

theorem replacePxWith_eq_textsWith (s : Text) :
    replacePxWith f s = textsWith f (located [] (tokenize s)) := by
  unfold replacePxWith
  split
  · rw [Component.ofText, (Component.matched_ofTokens _).replacePxWith_located,
      Component.located_ofTokens]
  · next h =>
    rw [textsWith_of_none f (lengthAt?_eq_none (by simpa using h)), map_fst_located, join_tokenize]

end Effects

open Token

theorem pxNumbers_eq_filterMap (s : Text) :
    pxNumbers s = (located [] (tokenize s)).filterMap lengthAt? := by
  unfold pxNumbers
  split
  · rw [Component.ofText, (Component.matched_ofTokens _).lengthTokens_located,
      Component.located_ofTokens]
  · next h =>
    rw [eq_comm, List.filterMap_eq_nil_iff]
    exact lengthAt?_eq_none (by simpa using h)

theorem replacePx_eq_flatMap (f : Text → Text) (s : Text) :
    replacePx f s =
      (located [] (tokenize s)).flatMap fun p => ((lengthAt? p).map f).getD p.1.source := by
  have htext (p : Token × Bool) :
      textWith (m := Id) f p = pure (((lengthAt? p).map f).getD p.1.source) := by
    rw [textWith]
    cases lengthAt? p <;> rfl
  rw [← replacePxWith_id, replacePxWith_eq_textsWith, textsWith, funext htext, List.mapM_pure]
  rfl

/-- The scan calls the replacement for the lengths among the flat tokens of the text that stand in
no url, once each and from left to right; the result is the text with their spans replaced by what
the calls return. So it is for texts without the letters `px`, which are not scanned at all. The
replacement may keep a state. -/
theorem replacePx_located (s : Text) :
    join (tokenize s) = s ∧
      pxNumbers s = (located [] (tokenize s)).filterMap lengthAt? ∧
      (∀ f : Text → Text, replacePx f s =
        (located [] (tokenize s)).flatMap fun p => ((lengthAt? p).map f).getD p.1.source) ∧
      ∀ (σ : Type) (f : Text → StateM σ Text), replacePxWith f s =
        List.flatten <$> (located [] (tokenize s)).mapM fun p =>
          ((lengthAt? p).map f).getD (pure p.1.source) :=
  ⟨join_tokenize s, pxNumbers_eq_filterMap s, fun f => replacePx_eq_flatMap f s,
    fun _ f => replacePxWith_eq_textsWith f s⟩

end Relength
