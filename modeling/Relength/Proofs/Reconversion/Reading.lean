import Relength.Proofs.Exchange
import Relength.Proofs.Locality.Words

/-!
# Tokens behind a converted length

The lexer goes through a converted text as through the text itself. Behind a length that converts
it is in a word, and the word is stuck. So the tokens of the converted text up to there end in a
word as well, which may take some more of the text behind it, but no url with it.

* `Conversion.Converts`: a length that converts, with what it is written as;
* `Token.exists_reading`: the tokens of a converted text about such a place.
-/

namespace Relength

open Token

namespace Lexer

/-- Behind neutral text the lexer sees a semicolon only where it is in a word. -/
theorem passed_eq_stuck {s : State} (h : (step s.passed ';').2 ≠ []) : s.passed = stuck := by
  have hcontext (k : Context) (h : (step (State.plain k).passed ';').2 ≠ []) :
      (State.plain k).passed = stuck := by
    cases k with
    | word url => rfl
    | string double => cases double <;> exact absurd rfl h
    | url => exact absurd rfl h
  cases s with
  | plain k => exact hcontext k h
  | spaced k =>
    have hplain : (State.spaced k).passed = (State.plain k).passed := by cases k <;> rfl
    rw [hplain] at h ⊢
    exact hcontext k h
  | cr k =>
    have hplain : (State.cr k).passed = (State.plain k).passed := by cases k <;> rfl
    rw [hplain] at h ⊢
    exact hcontext k h
  | escaped k => rfl
  | hex k digits => rfl
  | slash => rfl
  | less n => rfl
  | comment star => exact absurd rfl h
  | urlOpen => exact absurd rfl h
  | urlEnd => exact absurd rfl h
  | badUrl backslash => exact absurd rfl h

end Lexer

namespace Token

variable {ts us : List Token} {l : Token} {number x r : Text}

theorem neutral_px (h : IsNumber number) : Lexer.Neutral (number ++ px) := by
  have hneutral := Lexer.neutral_numberSpan h.1
  rw [h.numberSpan] at hneutral
  refine ⟨?_, number ++ ['p'], 'x', [], by simp [px], rfl, by simp⟩
  exact Binary64.plain_of_append hneutral.1 (by simp [px, Lexer.isPlain])

/-- Behind a length the lexer is in a word, and the word is stuck. -/
theorem stuck_length (hts : Lexes (ts ++ [pxToken number]) [';']) (hnumber : IsNumber number)
    (hout : Escape.outside.run (join ts) = .outside) :
    (Lexer.run Lexer.fresh (join (ts ++ [pxToken number]))).1 = Lexer.stuck := by
  have hfollows : (Lexer.run Lexer.fresh (join ts)).1.Follows .outside := by
    have := Lexer.follows_run (s := Lexer.fresh) (e := .outside) Escape.noConfusion (join ts)
    rwa [hout] at this
  have hpassed := Lexer.run_passed hfollows (neutral_px hnumber)
  have hjoin : join (ts ++ [pxToken number]) = join ts ++ (number ++ px) := by
    simp [join, pxToken, lengthToken]
  have hstate : (Lexer.run Lexer.fresh (join (ts ++ [pxToken number]))).1 =
      (Lexer.run Lexer.fresh (join ts)).1.passed := by
    rw [hjoin, Lexer.run_append, hpassed]
  rw [hstate]
  refine Lexer.passed_eq_stuck fun hnone => ?_
  have hbefore := Lexer.marks_of_lexes hts (x := []) rfl
  have hbehind := Lexer.marks_of_lexes hts (x := [';']) (y := []) rfl
  rw [List.append_nil] at hbefore
  have hlast : Lexer.marks Lexer.fresh (join (ts ++ [pxToken number]) ++ [';']) =
      Lexer.marks Lexer.fresh (join (ts ++ [pxToken number])) := by
    rw [Lexer.marks, Lexer.run_append, hstate, Lexer.marks, Lexer.run, hnone]
    simp [Lexer.run]
  rw [hlast, hbefore] at hbehind
  have hnone : [] = [Mark.semicolon] := List.append_cancel_left hbehind
  cases hnone

end Token

/-! ## Converted lengths -/

/-- A length that converts, and what it is written as. -/
structure Conversion.Converts (c : Conversion) (number : Text) : Prop where
  isNumber : IsNumber number
  written : c.format number = ['0'] ∨
    ∃ numeral, IsSigned numeral ∧ c.format number = numeral ++ c.unit

namespace Token

variable {ts us : List Token} {l : Token} {number x r : Text} {c : Conversion}

theorem pxNumber?_pxToken (number : Text) : (pxToken number).pxNumber? = some number :=
  pxNumber?_eq_some_iff.mpr ⟨rfl, rfl⟩

theorem hot_pxToken_iff {f : Text → Text} {around : List Token} :
    (pxToken number).Hot f around ↔ around.any opensUrl = false ∧ f number ≠ number ++ px := by
  unfold Hot
  rw [pxNumber?_pxToken]
  refine and_congr_right fun _ => ⟨?_, fun hne => ⟨number, rfl, hne⟩⟩
  rintro ⟨n, hn, hne⟩
  rwa [← Option.some.inj hn] at hne

/-- A length that is exchanged converts. -/
theorem exists_converts {s : Text} {t : Token} {around : List Token} (h : next? s = some (t, r))
    (hhot : t.Hot c.format around) :
    ∃ number, t = pxToken number ∧ c.Converts number ∧ nameChars r = ([], r) ∧
      t.replaced c.format around = c.format number := by
  obtain ⟨hurl, number, hpx, hne⟩ := hhot
  have hreplaced : t.replaced c.format around = c.format number := by
    rw [replaced, hurl, hpx]
    rfl
  have hstays (h : c.format number = number ++ px) : False :=
    hne (h.trans (append_px_of_pxNumber? hpx))
  cases hc : c.converted number with
  | number x =>
    obtain ⟨hread, hfinite⟩ := Conversion.of_converted hc
    have hback : '\\' ∉ number := fun hmem => by
      cases Conversion.plain_of_splitSign (Binary64.plain_of_ofText? hread) _ hmem
    obtain ⟨rfl, hstarts, hspan, hrest⟩ := exists_number h hpx hback
    refine ⟨number, rfl, ⟨⟨hstarts, hspan⟩, ?_⟩, hrest, hreplaced⟩
    simp only [Conversion.format, hc]
    split
    · exact .inl rfl
    · exact .inr ⟨_, Binary64.isSigned_toNumberText hfinite, rfl⟩
  | unreadable => exact (hstays (by simp [Conversion.format, hc])).elim
  | belowMinimum => exact (hstays (by simp [Conversion.format, hc])).elim
  | notFinite => exact (hstays (by simp [Conversion.format, hc])).elim

theorem isFinal_of_isAlpha {c : Char} (hc : c.isAlpha = true) (hlower : c ≠ 'e')
    (hupper : c ≠ 'E') : isFinal c = true := by
  have hne (d : Char) (hd : d.isAlpha = false) : c ≠ d := by
    rintro rfl
    rw [hd] at hc
    cases hc
  simp [isFinal, isSpace, isNewline, hlower, hupper, hne '-' rfl, hne '+' rfl, hne '.' rfl,
    hne '\\' rfl, hne '\r' rfl, hne '*' rfl, hne '!' rfl, hne ' ' rfl, hne '\t' rfl, hne '\n' rfl,
    hne '\x0c' rfl]

/-- Behind what is written for a length no two texts are told apart in front of it. -/
theorem shields_written (hunit : IsPlainUnit c.unit) (h : c.Converts number) (a : Text) :
    Shields (a ++ c.format number) ∧ EndsAlphanum (a ++ c.format number) := by
  rcases h.written with hzero | ⟨numeral, -, hnumeral⟩
  · rw [hzero]
    exact ⟨.inl ⟨a, '0', rfl, rfl⟩, a, '0', rfl, rfl⟩
  · obtain ⟨⟨d, unit, hsplit, hlower, hupper⟩, halpha⟩ := hunit
    rw [hnumeral, hsplit]
    rw [hsplit] at halpha
    rcases List.eq_nil_or_concat unit with rfl | ⟨front, e, rfl⟩
    · have hd := halpha d (by simp)
      refine ⟨.inl ⟨a ++ numeral, d, by simp, isFinal_of_isAlpha hd hlower hupper⟩, a ++ numeral, d,
        by simp, isAlphanum_of_isAlpha hd⟩
    · have he := halpha e (by simp)
      refine ⟨?_, a ++ numeral ++ d :: front, e, by simp, isAlphanum_of_isAlpha he⟩
      rcases List.eq_nil_or_concat front with rfl | ⟨y, b, rfl⟩
      · exact .inr ⟨a ++ numeral, d, e, by simp, halpha d (by simp), he⟩
      · exact .inr ⟨a ++ numeral ++ d :: y, b, e, by simp, halpha b (by simp), he⟩

/-! ## The last token in front of a semicolon -/

/-- A letter at the end of a token is not cut off from a letter behind it. -/
theorem not_isAlpha_of_cut {t : Token} {c d : Char} {a y : Text}
    (h : next? (t.source ++ d :: y) = some (t, d :: y)) (ht : t.source = a ++ [c])
    (hc : c.isAlpha = true) : d.isAlpha = false := by
  rw [Bool.eq_false_iff]
  intro hd
  have hnewline : isNewline d = false := by
    have hspace := Lexer.isSpace_of_isPlain (c := d) (by simp [Lexer.isPlain, Char.isAlphanum, hd])
    simp only [isSpace, Bool.or_eq_false_iff] at hspace
    exact hspace.2
  have hword := exists_word hnewline ⟨a, c, ht, isAlphanum_of_isAlpha hc⟩ h
  have habsorbs := absorbs_eq_false h
  have hname : isNameChar d = true := (Lexer.isNameChar_of_isAlphanum (isAlphanum_of_isAlpha hd)).1
  generalize hs : t.source ++ d :: y = s at hword
  cases hword with
  | @number _ number _ hnumber hspan =>
    have hends := Lexer.endsInDigit_numberSpan hnumber
    rw [hspan] at hends
    obtain ⟨b, e, hb, he⟩ : Lexer.EndsInDigit number := hends
    obtain ⟨-, hlast⟩ := List.append_inj' (ht.symm.trans hb) rfl
    rw [(List.cons.inj hlast).1, isAlpha_of_isDigit he] at hc
    cases hc
  | dimension => simp [absorbs, hname] at habsorbs
  | ident => simp [absorbs, hname] at habsorbs
  | atKeyword => simp [absorbs, hname] at habsorbs
  | hash => simp [absorbs, hname] at habsorbs

/-- Tokens in front of a semicolon, the last of them a word, in front of a text with no name at its
start: only the last one may take more. -/
theorem Lexes.exists_skips (hus : Lexes (us ++ [l]) [';'])
    (hstuck : (Lexer.run Lexer.fresh (join (us ++ [l]))).1 = Lexer.stuck)
    (hshields : Shields (join (us ++ [l]))) (hends : EndsAlphanum (join (us ++ [l])))
    (hx : nameChars x = ([], x)) :
    ∃ l' rest, l.source ++ x = l'.source ++ rest ∧ Lexes (us ++ [l']) rest ∧ Skips x rest := by
  obtain ⟨hfront, hnext⟩ := lexes_append_singleton_iff.mp hus
  rw [join_append, join_singleton] at hstuck hshields hends
  have hne : l.source ≠ [] := next?_source_ne_nil hnext
  obtain ⟨a, e, hsource⟩ : ∃ a e, l.source = a ++ [e] := by
    rcases List.eq_nil_or_concat l.source with h | ⟨a, e, h⟩
    · exact absurd h hne
    · exact ⟨a, e, by simpa using h⟩
  have he : e.isAlphanum = true := by
    rw [hsource, ← List.append_assoc] at hends
    exact hends.last
  have hstuck' : (Lexer.run Lexer.fresh l.source).1 = Lexer.stuck := by
    rcases Lexer.marks_join hfront with hscans | ⟨hnil, -⟩
    · rw [← hscans.state_eq l.source [';'] rfl ⟨e, by simp [hsource], he⟩, hstuck]
    · simp at hnil
  have hshields' : Shields l.source := by
    refine hshields.of_append hne fun y c d hy hd hc => ?_
    rcases List.eq_nil_or_concat us with rfl | ⟨vs, v, rfl⟩
    · simp [join] at hy
    · rw [List.concat_eq_append] at hfront hy
      have hvnext := (lexes_append_singleton_iff.mp hfront).2
      rw [hd, List.singleton_append] at hvnext
      have hvne := next?_source_ne_nil hvnext
      rcases List.eq_nil_or_concat v.source with h | ⟨b, c', hb⟩
      · exact absurd h hvne
      · rw [List.concat_eq_append] at hb
        rw [join_append, join_singleton, hb, ← List.append_assoc] at hy
        obtain ⟨-, hc'⟩ := List.append_inj' hy rfl
        obtain rfl := (List.cons.inj hc').1
        exact not_isAlpha_of_cut hvnext hb hc
  obtain ⟨l', rest, hread, hskips⟩ := exists_read hx hnext ⟨a, e, hsource, he⟩ hstuck' hshields'
  have happend := next?_append hread
  refine ⟨l', rest, happend.symm, lexes_append_singleton_iff.mpr ⟨?_, ?_⟩, hskips⟩
  · rw [happend]
    exact hfront.exchange (hshields'.alike _ _)
  · rw [happend, hread]

/-! ## Tokens behind a converted length -/

/-- The lexer goes through converted tokens as through those of the text. -/
theorem run_exchange (hunit : IsPlainUnit c.unit) {s : Text} (hclear : c.Clear s)
    {back : List Token} (hs : tokenize s = ts ++ back) (hts : Lexes ts []) :
    Lexer.run Lexer.fresh (exchange c.format [] ts) = Lexer.run Lexer.fresh (join ts) := by
  have hclear' : c.Clear (join ts) := by
    intro front t back' hsplit
    rw [hts.tokenize_join] at hsplit
    exact hclear front t (back' ++ back) (by rw [hs, hsplit]; simp)
  have hrespelled :=
    c.respelled_convert (fun u hu => isAlphanum_of_isAlpha (hunit.2 u hu)) hclear'
  have hconvert : c.convert (join ts) = exchange c.format [] ts := by
    rw [Conversion.convert, replacePx_eq_exchange, hts.tokenize_join]
  rw [← hconvert]
  exact (hrespelled.run_eq Escape.noConfusion).symm

/-- Some tokens of a converted text go on just behind a length that converts, but for tokens that
open no url. -/
theorem exists_reading (hunit : IsPlainUnit c.unit) {s : Text} (hclear : c.Clear s)
    {front back : List Token} {t : Token} (hs : tokenize s = front ++ t :: back)
    (hhot : t.Hot c.format (encloseAll [] front)) (hx : nameChars x = ([], x)) :
    ∃ us l rest, join us ++ l.source ++ rest = exchange c.format [] (front ++ [t]) ++ x ∧
      (join us).length < (exchange c.format [] (front ++ [t])).length ∧
      Lexes (us ++ [l]) rest ∧ Skips x rest := by
  have hsplit : tokenize s = front ++ [t] ++ back := by simp [hs]
  have hlexes := lexes_tokenize s
  rw [hsplit] at hlexes
  have hfront := (lexes_append_iff.mp hlexes).1
  have hnext := (lexes_append_singleton_iff.mp hfront).2
  obtain ⟨number, rfl, hconverts, -, hreplaced⟩ := exists_converts hnext hhot
  have hpx := pxNumber?_pxToken number
  have hback := hconverts.isNumber.unescaped
  have hout : Escape.outside.run (join front) = .outside := hclear front _ back hs hhot
  have hends : Lexes (front ++ [pxToken number]) [] :=
    hfront.exchange_length hpx hback (by rw [nameChars])
  have hspelled : (⟨.semicolon, [';']⟩ : Token).Spelled := rfl
  have hsemicolon :
      Lexes (front ++ [pxToken number]) ((⟨.semicolon, [';']⟩ : Token).source ++ []) :=
    hfront.exchange_length hpx hback (nameChars_of_stop (by decide) (by decide))
  have hrun := run_exchange hunit hclear hsplit hends
  have hstuck := stuck_length hsemicolon hconverts.isNumber hout
  have hends := shields_written hunit hconverts (exchange c.format [] front)
  rw [← hreplaced, ← exchange_append_singleton] at hends
  generalize exchange c.format [] (front ++ [pxToken number]) = written at hrun hends
  obtain ⟨us, rfl, hus, -⟩ := Lexer.exists_lexes_ending hspelled (.inl rfl) hsemicolon hrun
  rcases List.eq_nil_or_concat us with rfl | ⟨us, l, rfl⟩
  · obtain ⟨a, e, he, -⟩ := hends.2
    simp [join] at he
  · rw [List.concat_eq_append] at hends hus hrun ⊢
    obtain ⟨l', rest, hsource, hl', hskips⟩ :=
      hus.exists_skips (by rw [hrun, hstuck]) hends.1 hends.2 hx
    have hjoin : join (us ++ [l]) = join us ++ l.source := by rw [join_append, join_singleton]
    refine ⟨us, l', rest, ?_, ?_, hl', hskips⟩
    · rw [hjoin, List.append_assoc, List.append_assoc, hsource]
    · have hpos := List.length_pos_iff.mpr
        (next?_source_ne_nil (lexes_append_singleton_iff.mp hus).2)
      rw [hjoin, List.length_append]
      omega

end Token

end Relength
