import Relength.Options
import Relength.Proofs.Reconversion.Doubling
import Relength.Proofs.Reconversion.Reading

/-!
# Converting twice

In a converted text no length converts again, if the transform doubles and no length is too short.
What is written for a length does not end as a pixel length. In front of the first length that
converts the tokens are those of the text. Behind it they are so again, except that a zero may take
a number that starts with a point: a length that stayed then stays with the zero in front of it.

* `Token.not_hot_behind`: the tokens behind a length that converts;
* `Token.cold_convert`: no token of a converted text is a length that converts;
* `Options.convert_convert`: such a text is its own conversion.
-/

namespace Relength

open Token

/-! ## The end of what is written -/

/-- Letters behind a digit are told apart from what stands in front of them. -/
theorem letters_inj {a a' u u' : Text} (h : a ++ u = a' ++ u') (ha : Lexer.EndsInDigit a)
    (ha' : Lexer.EndsInDigit a') (hu : ∀ d ∈ u, d.isAlpha = true)
    (hu' : ∀ d ∈ u', d.isAlpha = true) : u = u' := by
  have hnil {b m : Text} (hb : Lexer.EndsInDigit (b ++ m)) (hm : ∀ d ∈ m, d.isAlpha = true) :
      m = [] := by
    rcases List.eq_nil_or_concat m with rfl | ⟨m, e, rfl⟩
    · rfl
    · obtain ⟨x, d, hx, hd⟩ := hb
      rw [List.concat_eq_append, ← List.append_assoc] at hx
      obtain ⟨-, he⟩ := List.append_inj' hx rfl
      have halpha := isAlpha_of_isDigit hd
      rw [← (List.cons.inj he).1, hm e (by simp)] at halpha
      cases halpha
  rcases List.append_eq_append_iff.mp h with ⟨m, rfl, rfl⟩ | ⟨m, rfl, rfl⟩
  · rw [hnil ha' fun d hd => hu d (List.mem_append_left _ hd), List.nil_append]
  · rw [hnil ha fun d hd => hu' d (List.mem_append_left _ hd), List.nil_append]

namespace Conversion.Converts

variable {c : Conversion} {number : Text} (h : c.Converts number)

include h

theorem startsSigned (r : Text) : StartsSigned (c.format number ++ r) := by
  rcases h.written with hzero | ⟨numeral, hsigned, hnumeral⟩
  · rw [hzero]
    exact ⟨'0', r, rfl, .inl rfl⟩
  · rw [hnumeral, List.append_assoc]
    exact startsSigned_append hsigned _

/-- No number has the unit in it: one that starts in what is written takes its last digit. -/
theorem endsInDigit_cut (hunit : IsPlainUnit c.unit) {a b g m : Text}
    (hcut : a ++ c.format number = b ++ g) (hg : g ≠ []) (hnumber : IsNumber (g ++ m)) :
    Lexer.EndsInDigit g := by
  rcases h.written with hzero | ⟨numeral, -, hnumeral⟩
  · rcases List.eq_nil_or_concat g with rfl | ⟨g, e, rfl⟩
    · exact absurd rfl hg
    · rw [hzero, List.concat_eq_append, ← List.append_assoc] at hcut
      obtain ⟨-, he⟩ := List.append_inj' hcut rfl
      exact ⟨g, e, by simp, by rw [← (List.cons.inj he).1]; rfl⟩
  · exfalso
    obtain ⟨⟨d, unit, hsplit, hlower, hupper⟩, halpha⟩ := hunit
    rw [hnumeral, ← List.append_assoc] at hcut
    rcases List.append_eq_append_iff.mp hcut with ⟨k, -, hk⟩ | ⟨k, -, hk⟩
    · -- The number would start with a letter of the unit.
      obtain ⟨e, g, rfl⟩ := List.exists_cons_of_ne_nil hg
      have he := isLead_of_isAlpha (halpha e (by simp [hk]))
      obtain ⟨e', s, hs, hlead⟩ := exists_lead hnumber.1
      rw [← (List.cons.inj hs).1, he] at hlead
      cases hlead
    · have hd := endsNumber_of_isAlpha (halpha d (by simp [hsplit])) hlower hupper
      rw [hk, hsplit, List.append_assoc] at hnumber
      exact IsNumber.not_ends hd hnumber

/-- No pixel length ends in what is written in another unit. -/
theorem not_ends_px (hunit : IsPlainUnit c.unit) (hpx : c.unit ≠ px) {a b n r v v' : Text}
    (hwritten : c.format number = v ++ v') (hv : v ≠ []) (hr : nameChars (v' ++ r) = ([], v' ++ r))
    (hn : IsNumber n) : a ++ v ≠ b ++ (n ++ px) := by
  intro heq
  obtain ⟨w, rfl⟩ : ∃ w, v = w ++ ['x'] := by
    rcases List.eq_nil_or_concat v with rfl | ⟨w, e, rfl⟩
    · exact absurd rfl hv
    · have hlast : b ++ (n ++ px) = b ++ (n ++ ['p']) ++ ['x'] := by simp [px]
      rw [List.concat_eq_append] at heq ⊢
      rw [hlast, ← List.append_assoc] at heq
      exact ⟨w, by rw [(List.append_inj' heq rfl).2]⟩
  rcases h.written with hzero | ⟨numeral, hsigned, hnumeral⟩
  · have hmem : 'x' ∈ ['0'] := by
      rw [← hzero, hwritten]
      simp
    simp at hmem
  · rw [hnumeral] at hwritten
    rcases List.append_eq_append_iff.mp hwritten with ⟨k, hk, hunit'⟩ | ⟨k, hk, -⟩
    · rcases v' with _ | ⟨d, v'⟩
      · rw [List.append_nil] at hunit'
        rw [hk, ← hunit', ← List.append_assoc, ← List.append_assoc] at heq
        exact hpx (letters_inj heq (hsigned.isNumber.endsInDigit.append a)
          (hn.endsInDigit.append b) hunit.2 (by simp [px]))
      · have hd := isAlphanum_of_isAlpha (hunit.2 d (by simp [hunit']))
        exact nameChars_ne (Lexer.isNameChar_of_isAlphanum hd).1 _ hr
    · have hnumber := hsigned.isNumber
      rw [hk, List.append_assoc] at hnumber
      exact IsNumber.not_ends (by decide) hnumber

end Conversion.Converts

namespace Token

variable {c : Conversion} {around : List Token}

/-! ## Where no name goes on -/

theorem nameChars_congr {v r r' : Text} (hv : v ≠ []) (hr : startsNewline r = startsNewline r')
    (h : nameChars (v ++ r) = ([], v ++ r)) : nameChars (v ++ r') = ([], v ++ r') := by
  obtain ⟨d, v, rfl⟩ := List.exists_cons_of_ne_nil hv
  obtain ⟨hd, hback⟩ := Lexer.nameChars_stop _ (congrArg Prod.snd h)
  refine nameChars_of_stop hd fun hslash => ?_
  cases v with
  | nil => exact hr.symm.trans (hback hslash)
  | cons e v => exact hback hslash

/-- A converted text starts with a newline if the text does. -/
theorem startsNewline_exchange {ts : List Token} {r : Text} (hts : Lexes ts r) :
    startsNewline (exchange c.format around ts) = startsNewline (join ts) := by
  cases ts with
  | nil => rfl
  | cons t ts =>
    have hnext := (lexes_cons_iff.mp hts).1
    rw [exchange, join_cons]
    by_cases hhot : t.Hot c.format around
    · obtain ⟨number, rfl, hconverts, -, hreplaced⟩ := exists_converts hnext hhot
      obtain ⟨e, w, rfl, he⟩ := exists_lead hconverts.isNumber.1
      generalize exchange c.format _ ts = s
      obtain ⟨d, s', hs, hd⟩ := (hconverts.startsSigned s).lead
      rw [hreplaced, hs]
      exact (isNewline_of_isLead hd).trans (isNewline_of_isLead he).symm
    · rw [replaced_of_not_hot hhot]
      obtain ⟨d, s, hs⟩ := List.exists_cons_of_ne_nil (next?_source_ne_nil hnext)
      rw [hs]
      rfl

/-- Where no name goes on into a converted text, none does into the text. -/
theorem nameChars_join {ts : List Token} {r v : Text} (hts : Lexes ts r)
    (h : nameChars (v ++ exchange c.format around ts) = ([], v ++ exchange c.format around ts)) :
    nameChars (v ++ join ts) = ([], v ++ join ts) := by
  rcases v with _ | ⟨d, v⟩
  · cases ts with
    | nil => exact h
    | cons t ts =>
      obtain ⟨hnext, hrest⟩ := lexes_cons_iff.mp hts
      rw [List.nil_append, exchange] at h
      rw [List.nil_append, join_cons]
      by_cases hhot : t.Hot c.format around
      · obtain ⟨number, -, hconverts, -, hreplaced⟩ := exists_converts hnext hhot
        rw [hreplaced] at h
        have hsigned := hconverts.startsSigned (exchange c.format (t.enclose around) ts)
        obtain ⟨e, s, hs, -⟩ := hsigned.lead
        have hname := hsigned.any_isNameChar
        rw [hs] at h hname
        exact absurd h (nameChars_ne hname s)
      · rw [replaced_of_not_hot hhot] at h
        exact nameChars_congr (next?_source_ne_nil hnext) (startsNewline_exchange hrest) h
  · exact nameChars_congr (by simp) (startsNewline_exchange hts) h

/-! ## Behind a length that converts -/

/-- Tokens that a length takes behind what is written for another one are one length, and one that
stays if the length by itself does. -/
theorem exists_merged (hunit : IsPlainUnit c.unit) (hdoubles : c.Doubles) {number : Text}
    (hconverts : c.Converts number) {a b g n rest : Text} {vs : List Token}
    (hcut : a ++ c.format number = b ++ g) (hg : g ≠ []) (hn : IsNumber n)
    (hsource : n ++ px = g ++ join vs) (hvs : join vs ≠ []) (hlexes : Lexes vs rest)
    (hname : nameChars (join vs ++ rest) = ([], join vs ++ rest))
    (hrest : nameChars rest = ([], rest)) :
    ∃ m, vs = [pxToken m] ∧ (c.format m = m ++ px → c.format n = n ++ px) := by
  obtain ⟨d, s, hs⟩ := List.exists_cons_of_ne_nil hvs
  have hd : isNameChar d = false := by
    rw [hs] at hname
    exact (Lexer.nameChars_stop (d :: s ++ rest) (congrArg Prod.snd hname)).1
  have hpx (hmem : d ∈ px) : False := by
    simp only [px, List.mem_cons, List.not_mem_nil, or_false] at hmem
    rcases hmem with rfl | rfl <;> cases hd
  obtain ⟨m, rfl, hm⟩ : ∃ m, n = g ++ m ∧ join vs = m ++ px := by
    rcases List.append_eq_append_iff.mp hsource with ⟨k, -, hk⟩ | ⟨k, hk, hjoin⟩
    · rw [hs] at hk
      exact (hpx (by simp [hk])).elim
    · exact ⟨k, hk, hjoin⟩
  rw [hm] at hs
  rcases m with _ | ⟨e, m⟩
  · exact (hpx (by rw [← List.nil_append px, hs]; simp)).elim
  · obtain ⟨rfl, -⟩ := List.cons.inj hs
    have hdigit := hconverts.endsInDigit_cut hunit hcut hg hn
    obtain ⟨sign, whole, fraction, exponent, hsign, hwhole, hne, hfraction, hexponent, hfront,
      hback, hnumber⟩ := hn.exists_fraction hdigit (by simp) (by simpa using hd)
    refine ⟨e :: m, ?_, fun hstays => ?_⟩
    · have hnext := next?_px hnumber.1 hnumber.2 hrest
      rw [← hm] at hnext
      exact List.append_cancel_right (hlexes.symm.trans (tokenize_of_next? hnext))
    · rw [hback] at hstays ⊢
      rw [hfront]
      exact hdoubles.format_fraction hsign hwhole hfraction hne hexponent hstays

/-- Behind such a length no url is open. -/
theorem any_opensUrl_behind {front back : List Token} {t : Token} {r : Text}
    (hlexes : Lexes (front ++ t :: back) r) (hhot : t.Hot c.format (encloseAll [] front)) :
    (encloseAll [] (front ++ [t])).any opensUrl = false := by
  have hnext := (lexes_cons_iff.mp (lexes_append_iff.mp hlexes).2).1
  obtain ⟨number, rfl, -⟩ := exists_converts hnext hhot
  rw [encloseAll_append]
  exact any_opensUrl_of_all hhot.1 fun u hu => by rw [List.mem_singleton.mp hu]; rfl

section Behind

/- Behind the length `t` of a text none converts up to a place in the token `w`, and the text in
front of that place ends, with the lengths in front of it converted, in the token `u`. -/
variable (hunit : IsPlainUnit c.unit) {front mid back us vs : List Token} {t w u : Token}
  {s v v' rest : Text} (hs : tokenize s = front ++ t :: (mid ++ w :: back))
  (hhot : t.Hot c.format (encloseAll [] front))
  (hcold : ¬w.Hot c.format (encloseAll [] (front ++ t :: mid)))
  (hv : v ≠ []) (hw : w.source = v ++ v')
  (hjoin : join (us ++ [u]) = exchange c.format [] (front ++ [t]) ++ (join mid ++ v))
  (hus : Lexes (us ++ [u]) (v' ++ join back))
  (hvs : Lexes vs rest) (hrest : join (mid ++ w :: back) = join vs ++ rest)

include hunit hs hhot hcold hv hw hjoin hus hvs hrest

/-- The token starts in what is written for the length. -/
theorem not_hot_across (hdoubles : c.Doubles)
    (hlength : (join us).length < (exchange c.format [] (front ++ [t])).length)
    (hsame : rest = v' ++ join back) : ¬u.Hot c.format (encloseAll [] us) := by
  intro hot
  subst hsame
  have hlexes := lexes_tokenize s
  rw [hs] at hlexes
  obtain ⟨htnext, hbehind⟩ := lexes_cons_iff.mp (lexes_append_iff.mp hlexes).2
  obtain ⟨number, -, hconverts, hname, hreplaced⟩ := exists_converts htnext hhot
  obtain ⟨n, rfl, hn, hname', -⟩ := exists_converts (lexes_append_singleton_iff.mp hus).2 hot
  have htail : join vs = join mid ++ v := by
    have hwhole : join vs ++ (v' ++ join back) = join mid ++ v ++ (v' ++ join back) := by
      rw [← hrest, join_append, join_cons, hw]
      simp only [List.append_assoc]
    exact List.append_cancel_right hwhole
  rw [List.append_nil, hrest] at hname
  rw [join_append, join_singleton, ← htail] at hjoin
  obtain ⟨g, hcut, hsource⟩ : ∃ g, exchange c.format [] (front ++ [t]) = join us ++ g ∧
      n ++ px = g ++ join vs := by
    rcases List.append_eq_append_iff.mp hjoin with ⟨g, hg, hsource⟩ | ⟨g, hg, -⟩
    · exact ⟨g, hg, hsource⟩
    · rw [hg, List.length_append] at hlength
      omega
  have hg : g ≠ [] := by
    rintro rfl
    rw [hcut, List.append_nil] at hlength
    omega
  have hne : join vs ≠ [] := by simp [htail, hv]
  rw [exchange_append_singleton, hreplaced] at hcut
  obtain ⟨m, rfl, hmerged⟩ := exists_merged hunit hdoubles hconverts hcut hg hn.isNumber hsource
    hne hvs hname hname'
  have htokens : mid ++ w :: back = [] ++ pxToken m :: tokenize (v' ++ join back) := by
    rw [← hbehind.tokenize_join, hrest, hvs]
    rfl
  obtain ⟨rfl, rfl⟩ := eq_of_cut htokens htail hv hw (by simp [pxToken, lengthToken, px])
  have hstays : c.format m = m ++ px := by
    by_contra hchanges
    exact hcold (hot_pxToken_iff.mpr ⟨any_opensUrl_behind hlexes hhot, hchanges⟩)
  exact (hot_pxToken_iff.mp hot).2 (hmerged hstays)

omit hunit in
/-- The token starts where the tokens are those of the text again. -/
theorem not_hot_later (hnone : ∀ v ∈ vs, v.opensUrl = false) {us' m : List Token} {l : Token}
    (husm : us = us' ++ l :: m)
    (hread : join us' ++ l.source = exchange c.format [] (front ++ [t]) ++ join vs)
    (hm : tokenize rest = m ++ u :: tokenize (v' ++ join back)) :
    ¬u.Hot c.format (encloseAll [] us) := by
  rintro ⟨hurl, hot⟩
  subst husm
  have hlexes := lexes_tokenize s
  rw [hs] at hlexes
  have hbehind := (lexes_cons_iff.mp (lexes_append_iff.mp hlexes).2).2
  have htokens : mid ++ w :: back = (vs ++ m) ++ u :: tokenize (v' ++ join back) := by
    rw [← hbehind.tokenize_join, hrest, hvs, hm, List.append_assoc]
  have hwritten : exchange c.format [] (front ++ [t]) ++ join (vs ++ m ++ [u]) =
      exchange c.format [] (front ++ [t]) ++ (join mid ++ v) :=
    calc exchange c.format [] (front ++ [t]) ++ join (vs ++ m ++ [u])
      _ = exchange c.format [] (front ++ [t]) ++ join vs ++ (join m ++ join [u]) := by
        simp only [join_append, List.append_assoc]
      _ = join us' ++ l.source ++ (join m ++ join [u]) := by rw [hread]
      _ = join (us' ++ l :: m ++ [u]) := by simp only [join_append, join_cons, List.append_assoc]
      _ = exchange c.format [] (front ++ [t]) ++ (join mid ++ v) := hjoin
  have hcut : join (vs ++ m ++ [u]) = join mid ++ v := List.append_cancel_left hwritten
  have hne := next?_source_ne_nil (lexes_append_singleton_iff.mp hus).2
  obtain ⟨rfl, rfl⟩ := eq_of_cut htokens hcut hv hw hne
  refine hcold ⟨?_, hot⟩
  have hvs' : (encloseAll [] (front ++ [t] ++ vs)).any opensUrl = false := by
    rw [encloseAll_append]
    exact any_opensUrl_of_all (any_opensUrl_behind hlexes hhot) hnone
  rw [Bool.eq_false_iff]
  intro hopen
  have hsplit : front ++ t :: (vs ++ m) = front ++ [t] ++ vs ++ m := by simp
  rw [hsplit, encloseAll_append] at hopen
  have hopen' : (encloseAll (encloseAll [] (us' ++ [l])) m).any opensUrl = true :=
    any_opensUrl_encloseAll hvs' m hopen
  rw [← encloseAll_append, List.append_assoc, List.singleton_append, hurl] at hopen'
  cases hopen'

omit hvs hrest

/-- Behind a length that converts no token converts that none of the text did. -/
theorem not_hot_behind (hdoubles : c.Doubles) (hclear : c.Clear s) :
    ¬u.Hot c.format (encloseAll [] us) := by
  have hlexes := lexes_tokenize s
  rw [hs] at hlexes
  obtain ⟨htnext, hbehind⟩ := lexes_cons_iff.mp (lexes_append_iff.mp hlexes).2
  obtain ⟨-, -, -, hname, -⟩ := exists_converts htnext hhot
  rw [List.append_nil] at hname
  obtain ⟨us', l, rest, hread, hlength, hl, vs, hrest, hvs, hnone⟩ :=
    exists_reading hunit hclear hs hhot hname
  have htext : join (us' ++ [l]) ++ rest = join (us ++ [u]) ++ (v' ++ join back) := by
    rw [join_append, join_singleton, hread, hjoin, join_append, join_cons, hw]
    simp only [List.append_assoc]
  have hread' : join us' ++ l.source = exchange c.format [] (front ++ [t]) ++ join vs := by
    rw [hrest, ← List.append_assoc] at hread
    exact List.append_cancel_right hread
  have htokens : us' ++ l :: tokenize rest = us ++ u :: tokenize (v' ++ join back) := by
    have hsame := hl.symm.trans ((congrArg tokenize htext).trans hus)
    simpa using hsame
  rcases cut_cases htokens with ⟨rfl, rfl⟩ | ⟨m, husm, hm⟩ | ⟨m, rfl, -⟩
  · exact not_hot_across hunit hs hhot hcold hv hw hjoin hus hvs hrest hdoubles hlength
      (List.append_cancel_left htext)
  · exact not_hot_later hs hhot hcold hv hw hjoin hus hvs hrest hnone husm hread' hm
  · -- The token would end in front of what is written for the length.
    exfalso
    have hcut := congrArg List.length hjoin
    rw [join_append, join_singleton] at hcut
    simp only [join_append, join_cons, List.length_append] at hlength hcut
    omega

end Behind

/-- In front of all lengths that convert no token converts. -/
theorem not_hot_in_front {front back us : List Token} {t u : Token} {s v v' : Text}
    (hs : tokenize s = front ++ t :: back) (hcold : ¬t.Hot c.format (encloseAll [] front))
    (hv : v ≠ []) (ht : t.source = v ++ v') (hjoin : join (us ++ [u]) = join front ++ v)
    (hus : Lexes (us ++ [u]) (v' ++ join back)) : ¬u.Hot c.format (encloseAll [] us) := by
  have htext : join (us ++ [u]) ++ (v' ++ join back) = s := by
    rw [← join_tokenize s, hs, hjoin, join_append, join_cons, ht]
    simp only [List.append_assoc]
  have htokens : front ++ t :: back = us ++ u :: tokenize (v' ++ join back) := by
    rw [← hs, ← htext, hus, List.append_assoc]
    rfl
  have hne := next?_source_ne_nil (lexes_append_singleton_iff.mp hus).2
  obtain ⟨rfl, rfl⟩ := eq_of_cut htokens hjoin hv ht hne
  exact hcold

/-- In a converted text no token is a length that converts. -/
theorem cold_convert (hunit : IsPlainUnit c.unit) (hpx : c.unit ≠ px) (hdoubles : c.Doubles)
    {s : Text} (hclear : c.Clear s) : Cold c.format [] (tokenize (c.convert s)) := by
  intro us u rest hsplit hot
  have hlexes := lexes_tokenize (c.convert s)
  rw [hsplit, ← List.singleton_append, ← List.append_assoc] at hlexes
  have hus := (lexes_append_iff.mp hlexes).1
  rw [List.append_nil] at hus
  have hnext := (lexes_append_singleton_iff.mp hus).2
  obtain ⟨n, rfl, hn, hname, -⟩ := exists_converts hnext hot
  -- The text in front of `rest` ends somewhere in what takes the place of a token.
  have hconvert : exchange c.format [] (tokenize s) = join (us ++ [pxToken n]) ++ join rest := by
    rw [← replacePx_eq_exchange, ← join_append, List.append_assoc, List.singleton_append,
      ← hsplit, join_tokenize]
    rfl
  have hne : join (us ++ [pxToken n]) ≠ [] := by simp [join, next?_source_ne_nil hnext]
  obtain ⟨front, t, back, v, v', hs, hv, hreplaced, hjoin, hback⟩ := exchange_cut hconvert hne
  have hwhole := lexes_tokenize s
  rw [hs] at hwhole
  obtain ⟨htnext, hbehind⟩ := lexes_cons_iff.mp (lexes_append_iff.mp hwhole).2
  rw [hback] at hname
  by_cases hhot : t.Hot c.format (encloseAll [] front)
  · obtain ⟨number, -, hconverts, -, hformat⟩ := exists_converts htnext hhot
    rw [hformat] at hreplaced
    rw [join_append, join_singleton] at hjoin
    exact hconverts.not_ends_px hunit hpx hreplaced hv hname hn.isNumber hjoin.symm
  · rw [replaced_of_not_hot hhot] at hreplaced
    have hus' : Lexes (us ++ [pxToken n]) (v' ++ join back) :=
      hus.exchange_length (pxNumber?_pxToken n) hn.isNumber.unescaped (nameChars_join hbehind hname)
    rcases exists_last_hot c.format [] front with hnone | ⟨front', t', mid, rfl, hhot', hlast⟩
    · rw [hnone] at hjoin
      exact not_hot_in_front hs hhot hv hreplaced hjoin hus' hot
    · rw [hlast, List.append_assoc] at hjoin
      have hsplit : front' ++ t' :: mid ++ t :: back = front' ++ t' :: (mid ++ t :: back) := by simp
      rw [hsplit] at hs
      exact not_hot_behind hunit hs hhot' hhot hv hreplaced hjoin hus' hdoubles hclear hot

end Token

/-- Lengths are doubled, none is too short, and they are written in a unit of letters other than
`px`, of which the first is in no number. Then a converted text is its own conversion, if no length
that converts directly follows an unfinished escape. -/
theorem Options.convert_convert (o : Options) (htransform : o.transform = default.transform)
    (hminimum : Binary64.zero.less o.minPixelValue = false) (hunit : IsPlainUnit o.unit)
    (hpx : o.unit ≠ px) (s : Text) (hclear : o.conversion.Clear s) :
    o.convert (o.convert s) = o.convert s := by
  have hdoubles : o.conversion.Doubles := ⟨htransform, hminimum⟩
  have hcold : Cold o.conversion.format [] (tokenize (o.convert s)) :=
    cold_convert hunit hpx hdoubles hclear
  calc o.convert (o.convert s)
    _ = exchange o.conversion.format [] (tokenize (o.convert s)) := replacePx_eq_exchange _ _
    _ = join (tokenize (o.convert s)) := exchange_of_cold hcold
    _ = o.convert s := join_tokenize _

/-- A zero takes the length behind it, which stays. So does a length in a url, though it follows an
escape. -/
theorem Options.convert_convert_zero :
    Binary64.zero.less default.minPixelValue = false ∧ IsPlainUnit default.unit ∧
      default.unit ≠ px ∧
      default.conversion.Clear "0px.5e309px url(\"\" \\7+2.5px)".toList ∧
      default.convert (default.convert "0px.5e309px url(\"\" \\7+2.5px)".toList) =
        default.convert "0px.5e309px url(\"\" \\7+2.5px)".toList := by
  have hminimum : Binary64.zero.less default.minPixelValue = false := by decide
  have hunit : IsPlainUnit default.unit :=
    ⟨⟨'r', ['p', 'x'], rfl, by decide, by decide⟩, by simp [default]⟩
  have hpx : default.unit ≠ px := by decide
  have hclear : default.conversion.Clear "0px.5e309px url(\"\" \\7+2.5px)".toList :=
    default.conversion.clear_of_located (by cbv)
  exact ⟨hminimum, hunit, hpx, hclear, default.convert_convert rfl hminimum hunit hpx _ hclear⟩

/-- The digits of a length come to belong to the escape in front of it, which then spells `url`. The
string behind it is no string any more, and the length in the string converts. -/
theorem Options.convert_convert_escape :
    ¬∀ (o : Options), o.transform = default.transform →
      Binary64.zero.less o.minPixelValue = false → IsPlainUnit o.unit → o.unit ≠ px →
      ∀ s, o.convert (o.convert s) = o.convert s := by
  intro h
  let o : Options := { default with unit := ['r', 'l'] }
  have hunit : IsPlainUnit o.unit := ⟨⟨'r', ['l'], rfl, by decide, by decide⟩, by simp [o]⟩
  have hfirst : o.conversion.format "+2.5".toList = "5rl".toList := by decide +kernel
  have hsecond : o.conversion.format ['3'] = "6rl".toList := by decide +kernel
  have honce (f : Text → Text) : replacePx f "\\7+2.5px(a\")3px\"".toList =
      "\\7".toList ++ (f "+2.5".toList ++ "(a\")3px\"".toList) := by
    cbv
  have htwice (f : Text → Text) : replacePx f "\\75rl(a\")3px\"".toList =
      "\\75rl(a\")".toList ++ (f ['3'] ++ "\"".toList) := by
    cbv
  have hconvert : o.convert "\\7+2.5px(a\")3px\"".toList = "\\75rl(a\")3px\"".toList := by
    rw [convert, Conversion.convert, honce, hfirst]
    rfl
  have hagain : o.convert "\\75rl(a\")3px\"".toList = "\\75rl(a\")6rl\"".toList := by
    rw [convert, Conversion.convert, htwice, hsecond]
    rfl
  have hsame := h o rfl (by decide) hunit (by decide) "\\7+2.5px(a\")3px\"".toList
  rw [hconvert, hagain] at hsame
  revert hsame
  decide

end Relength
