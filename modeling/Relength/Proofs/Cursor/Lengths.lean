import Relength.Proofs.Cursor.Components
import Relength.Proofs.FlatTokens

/-!
# Lengths, read from positions

The search records where the lengths are; the replacement cuts the text there. `spansFrom` gives the
positions from the located tokens, and a search finds these positions (`Search.run_eq`). They lie
one behind the other, so each cut is there (`foldlM_replaceSpan`).
-/

namespace Relength

open String (utf8Len)

open Component hiding located

open Token hiding located

/-- The positions of the lengths among located tokens, the first of which stands at `start`. -/
def spansFrom (start : Nat) : List (Token × Bool) → List Span
  | [] => []
  | p :: ps =>
    (if p.1.isPx && !p.2 then [(start, start + utf8Len p.1.source)] else []) ++
      spansFrom (start + utf8Len p.1.source) ps

theorem spansFrom_append (start : Nat) (ps qs : List (Token × Bool)) :
    spansFrom start (ps ++ qs) =
      spansFrom start ps ++ spansFrom (start + utf8Len (join (ps.map Prod.fst))) qs := by
  induction ps generalizing start with
  | nil => simp [spansFrom, join]
  | cons p ps ih => simp [spansFrom, ih, String.utf8Len_append, Nat.add_assoc]

theorem spansFrom_eq_nil {ps : List (Token × Bool)} (h : ∀ p ∈ ps, p.1.isPx = true → p.2 = true)
    (start : Nat) : spansFrom start ps = [] := by
  induction ps generalizing start with
  | nil => rfl
  | cons p ps ih =>
    obtain ⟨hp, hps⟩ := List.forall_mem_cons.mp h
    rw [spansFrom, ih hps, if_neg]
    · rfl
    · simpa using hp

theorem Token.isPx_of_opens {t : Token} (h : t.opens?.isSome = true) : t.isPx = false := by
  obtain ⟨kind, text⟩ := t
  cases kind <;> first | rfl | cases h

theorem Token.isPx_of_closes {t : Token} {b : Bracket} (h : t.closes? = some b) :
    t.isPx = false := by
  simp [isPx, closes?_eq_some_iff.mp h]

theorem Token.opensUrl_of_not_opens {t : Token} (h : t.opens? = none) : t.opensUrl = false := by
  obtain ⟨kind, text⟩ := t
  cases kind <;> first | rfl | cases h

section Readers

variable {m : Type → Type} [Monad m] [LawfulMonad m] (lapse : (α : Type) → Lapse → α → m α)

namespace Search

/-- The search finds the lengths in a block, if there are fewer tokens in it than this. -/
def SearchesBlocks (searchBlock : Search → m (List Span × Cursor)) (size : Nat) : Prop :=
  ∀ (s : Search) (cs : List Component) (vs : List Token),
    (tokens cs).length < size → s.cursor.Shows cs vs →
      searchBlock s = pure (s.spans ++ spansFrom s.cursor.position (Component.located false cs),
        s.cursor.advance (source cs).length)

variable {searchBlock : Search → m (List Span × Cursor)} {size : Nat} {cs : List Component}
  {tail : List Token}

omit [LawfulMonad m] in
theorem step_token {s : Search} {t : Token} (h : s.cursor.Shows (.token t :: cs) tail) :
    s.step lapse searchBlock = pure (.again
      ⟨s.spans ++ spansFrom s.cursor.position (Component.located false [.token t]),
        s.cursor.advance (source [.token t]).length⟩) := by
  obtain ⟨us, -, hopens, -⟩ := h.reads.token_cases
  have hposition := h.position_advance [.token t]
  rw [step, h.next_cons]
  dsimp only [first]
  rw [h.behind_token, hposition, opensUrl_of_not_opens hopens, hopens]
  cases hpx : t.isPx <;> simp [Component.located, spansFrom, hpx]

theorem step_block (hsearch : SearchesBlocks searchBlock size) {s : Search} {t : Token}
    {content : List Component} {closer : Option Token}
    (h : s.cursor.Shows (.block t content closer :: cs) tail)
    (hsize : (tokens (.block t content closer :: cs)).length ≤ size) :
    s.step lapse searchBlock = pure (.again
      ⟨s.spans ++ spansFrom s.cursor.position (Component.located false [.block t content closer]),
        s.cursor.advance (source [.block t content closer]).length⟩) := by
  obtain ⟨b, us, vs, -, hopens, -, hcloser, -⟩ := h.reads.block_cases
  have hpx : t.isPx = false := isPx_of_opens (by simp [hopens])
  have hclosers (start : Nat) (url : Bool) : spansFrom start (closer.toList.map (·, url)) = [] := by
    refine spansFrom_eq_nil ?_ start
    intro p hp hpx'
    obtain ⟨u, hu, rfl⟩ := List.mem_map.mp hp
    rw [isPx_of_closes (hcloser u (by simpa using hu))] at hpx'
    cases hpx'
  rw [step, h.next_cons]
  dsimp only [first]
  rw [hpx]
  cases hurl : t.opensUrl with
  | true =>
    have hcontent (start : Nat) : spansFrom start (Component.located true content) = [] :=
      spansFrom_eq_nil (fun p hp _ => snd_located_true content p hp) start
    rw [h.skipNested]
    simp [Component.located, spansFrom, hpx, hurl, spansFrom_append, hclosers, hcontent]
  | false =>
    have hlength : (tokens content).length < size := by
      rw [tokens, List.length_cons, List.length_append, List.length_append] at hsize
      omega
    have hposition := h.position_behind
    have hinside (inner : Cursor) (vs : List Token)
        (hinner : inner.position = (s.cursor.behind t).position) (hshows : inner.Shows content vs) :
        searchBlock ⟨s.spans, inner⟩ = pure (s.spans ++ spansFrom
          (s.cursor.position + utf8Len t.source) (Component.located false content),
          inner.advance (source content).length) := by
      rw [hsearch ⟨s.spans, inner⟩ content vs hlength hshows]
      dsimp only
      rw [hinner]
      exact hposition ▸ rfl
    simp [h.nested lapse hinside, hopens, Component.located, spansFrom, hpx, hurl,
      spansFrom_append, hclosers]

/-- All lengths up to the end are found, in as many turns as there are tokens and one more. -/
theorem run_eq {turns : Nat} {s : Search} (h : s.cursor.Shows cs tail)
    (hturns : (tokens cs).length < turns) :
    run lapse turns s = pure (s.spans ++ spansFrom s.cursor.position (Component.located false cs),
      s.cursor.advance (source cs).length) := by
  induction turns generalizing s cs tail with
  | zero => cases hturns
  | succ turns ih =>
    have hsearch : SearchesBlocks (run lapse turns) turns :=
      fun s cs vs hlength hshows => ih hshows hlength
    rw [run]
    cases cs with
    | nil =>
      rw [step, h.next_nil]
      simp [Component.located, spansFrom, Cursor.advance_zero h.opened]
    | cons k cs =>
      have hsize := Nat.le_of_lt_succ hturns
      have hlater := h.later [k]
      have hfewer : (tokens cs).length < turns := by
        have hpos := tokens_pos (List.cons_ne_nil k [])
        rw [← List.singleton_append, tokens_append, List.length_append] at hsize
        omega
      have hstep : s.step lapse (run lapse turns) = pure (.again
          ⟨s.spans ++ spansFrom s.cursor.position (Component.located false [k]),
            s.cursor.advance (source [k]).length⟩) := by
        cases k with
        | token t => exact step_token lapse h
        | block t content closer => exact step_block lapse hsearch h hsize
      rw [hstep, pure_bind]
      dsimp only
      rw [ih hlater hfewer]
      dsimp only
      rw [h.position_advance [k], Cursor.advance_advance, ← List.length_append,
        ← source_cons, List.append_assoc]
      have hspans := spansFrom_append s.cursor.position (Component.located false [k])
        (Component.located false cs)
      rw [← Component.located_append, Component.map_fst_located, List.singleton_append] at hspans
      rw [hspans]
      rfl

end Search

theorem pxSpansAt_eq {turns : Nat} (s : Text) (hturns : s.length < turns) :
    pxSpansAt lapse turns s =
      pure (spansFrom 0 (Component.located false (Component.ofText s))) := by
  have hrun := Search.run_eq lapse (s := ⟨[], .start s⟩) (Cursor.shows_start s)
    ((length_tokens_ofText s).trans_lt hturns)
  rw [pxSpansAt, hrun, pure_bind]
  simp [Cursor.position, Cursor.start]

/-! ## Replacing -/

section Replace

variable (f : Text → m Text)

theorem lengthAt?_of_not_isPx {p : Token × Bool} (h : (p.1.isPx && !p.2) = false) :
    lengthAt? p = none := by
  obtain ⟨t, url⟩ := p
  cases url <;> simp_all [lengthAt?, pxNumber?]

theorem lengthAt?_of_isPx {t : Token} (h : t.isPx = true) :
    lengthAt? (t, false) = if px.isSuffixOf t.source then
      some (t.source.take (t.source.length - px.length)) else none := by
  simp [lengthAt?, pxNumber?, h]

/-- The token at the position is found there, and so is the text in front of it that has not been
copied yet. -/
theorem replaceSpan_eq {s done kept source rest : Text} (hs : s = done ++ kept ++ source ++ rest)
    (out : Text) :
    replaceSpan lapse f s (out, utf8Len done)
        (utf8Len (done ++ kept), utf8Len (done ++ kept) + utf8Len source) =
      if px.isSuffixOf source then do
        let new ← f (source.take (source.length - px.length))
        return (out ++ kept ++ new, utf8Len (done ++ kept) + utf8Len source)
      else pure (out, utf8Len done) := by
  have hsource := Text.sliceAt_eq lapse (a := done ++ kept) (b := source) (c := rest) hs
  have hkept := Text.sliceAt_eq lapse (hs.trans (List.append_assoc (done ++ kept) source rest))
  rw [String.utf8Len_append (done ++ kept)] at hsource
  rw [replaceSpan, hsource, pure_bind, hkept, pure_bind]

/-- What has been copied and what will be copied with the next length lie one behind the other in
front of the tokens still to come. -/
theorem foldlM_replaceSpan {s : Text} (done kept : Text) {ps : List (Token × Bool)}
    (hs : s = done ++ kept ++ join (ps.map Prod.fst)) (out : Text) :
    (do
      let (out', copied) ←
        (spansFrom (utf8Len (done ++ kept)) ps).foldlM (replaceSpan lapse f s) (out, utf8Len done)
      let back ← s.sliceAt lapse copied (utf8Len s)
      return out' ++ back) =
      (do
        let texts ← textsWith f ps
        return out ++ kept ++ texts) := by
  induction ps generalizing done kept out with
  | nil =>
    have hslice := Text.sliceAt_eq lapse hs
    simp only [List.map_nil, join, List.flatMap_nil, List.append_nil] at hs
    rw [← hs] at hslice
    rw [spansFrom, List.foldlM_nil, pure_bind]
    dsimp only
    rw [hslice, pure_bind]
    simp [textsWith]
  | cons p ps ih =>
    obtain ⟨t, url⟩ := p
    have hcut : s = done ++ kept ++ t.source ++ join (ps.map Prod.fst) := by simp [hs]
    have hend : utf8Len (done ++ kept) + utf8Len t.source =
        utf8Len (done ++ (kept ++ t.source)) := by simp [String.utf8Len_append, Nat.add_assoc]
    -- A token that stays is copied with the next length.
    have hkeep (hlength : lengthAt? (t, url) = none) :
        (do
          let (out', copied) ← (spansFrom (utf8Len (done ++ kept) + utf8Len t.source) ps).foldlM
            (replaceSpan lapse f s) (out, utf8Len done)
          let back ← s.sliceAt lapse copied (utf8Len s)
          return out' ++ back) =
          (do
            let texts ← textsWith f ((t, url) :: ps)
            return out ++ kept ++ texts) := by
      rw [hend, ih done _ (by simpa using hcut), textsWith_cons, textWith, hlength]
      simp
    rw [spansFrom]
    cases hfound : t.isPx && !url with
    | false => exact hkeep (lengthAt?_of_not_isPx hfound)
    | true =>
      obtain ⟨hpx, rfl⟩ : t.isPx = true ∧ url = false := by simpa using hfound
      have hlength := lengthAt?_of_isPx hpx
      rw [if_pos rfl, List.singleton_append, List.foldlM_cons, replaceSpan_eq lapse f hcut]
      cases hsuffix : px.isSuffixOf t.source with
      | false =>
        rw [hsuffix, if_neg (by simp)] at hlength
        rw [if_neg (by simp), pure_bind]
        exact hkeep hlength
      | true =>
        rw [hsuffix, if_pos rfl] at hlength
        have hrest (new : Text) := ih (done ++ (kept ++ t.source)) []
          (by simpa using hcut) (out ++ kept ++ new)
        simp only [List.append_nil, ← hend] at hrest
        rw [textsWith_cons, textWith, hlength, if_pos rfl]
        simp only [bind_assoc, pure_bind, hrest]
        simp

/-- Every cut is there, and the text between the lengths stays. -/
theorem replacePxAt_eq (s : Text) : replacePxAt lapse f s = replacePxWith f s := by
  have hjoin : s = [] ++ [] ++ join ((Token.located [] (tokenize s)).map Prod.fst) := by
    rw [Token.map_fst_located, join_tokenize]
    rfl
  have hfold := foldlM_replaceSpan lapse f [] [] hjoin []
  have htexts : (do
      let texts ← textsWith f (Token.located [] (tokenize s))
      return [] ++ [] ++ texts) = replacePxWith f s := by
    rw [replacePxWith_eq_textsWith]
    simp
  rw [htexts] at hfold
  rw [replacePxAt]
  split
  · rw [pxSpansAt_eq lapse s s.length.lt_succ_self, pure_bind, Component.ofText,
      Component.located_ofTokens]
    split
    · next hnil =>
      have hwhole : s.sliceAt lapse (utf8Len []) (utf8Len s) = pure s :=
        Text.sliceAt_eq lapse (List.append_nil s).symm
      have hspans : spansFrom (utf8Len ([] ++ [])) (Token.located [] (tokenize s)) = [] :=
        List.isEmpty_iff.mp hnil
      rw [← hfold, hspans, List.foldlM_nil, pure_bind]
      dsimp only
      rw [hwhole, pure_bind, List.nil_append]
    · exact hfold
  · next hno => rw [replacePxWith, if_neg hno]

end Replace

end Readers

end Relength
