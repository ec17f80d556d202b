import Relength.Proofs.Locality

/-!
# Tokens in front of texts that look alike

The scanners of whole tokens are local like those of names and numbers. So the tokens in front of a
text depend on how it looks to them and not on the text.

* `Token.Lexes.exchange`: tokens stay as they are in front of a text that looks alike;
* `Token.lexes_colon`: tokens in front of a colon do not depend on what stands behind it;
* `Token.Lexes.at_end`: tokens in front of a bracket or a semicolon are those at the end of a text.
-/

namespace Relength.Token

variable {c : Char} {r r' : Text}

/-! ## Strings, comments and urls -/

theorem stringBody_escape {quote : Char} (hq : quote ≠ '\\') {s : Text}
    (h : ∀ t, s ≠ ['\r', '\n'] ++ t) :
    stringBody quote ('\\' :: s) =
      prepend ('\\' :: (escape s).1.source) (stringBody quote (escape s).2) := by
  rw [stringBody]
  · simp [hq.symm, isNewline]
  · exact h

theorem stringBody_crlf {quote : Char} (hq : quote ≠ '\\') (s : Text) :
    stringBody quote ('\\' :: (['\r', '\n'] ++ s)) =
      prepend ['\\', '\r', '\n'] (stringBody quote s) := by
  rw [List.cons_append, List.singleton_append, stringBody]
  simp [hq.symm, isNewline]

theorem stringBody_cons {quote c : Char} (hc : c ≠ '\\') (s : Text) :
    stringBody quote (c :: s) =
      if c = quote then (⟨.string, [c]⟩, s)
      else if isNewline c then (⟨.badString, []⟩, c :: s)
      else prepend [c] (stringBody quote s) := by
  rw [stringBody.eq_def]
  simp [hc]

/-- What a string does with its next character. -/
inductive StringCase (quote c : Char) (s : Text) : Prop where
  | crlf (hc : c = '\\') {t : Text} (hs : s = ['\r', '\n'] ++ t)
  | escape (hc : c = '\\') (hs : ∀ t, s ≠ ['\r', '\n'] ++ t)
  | close (hc : c ≠ '\\') (hquote : c = quote)
  | newline (hc : c ≠ '\\') (hquote : c ≠ quote) (hn : isNewline c = true)
  | plain (hc : c ≠ '\\') (hquote : c ≠ quote) (hn : isNewline c = false)

theorem stringBody_cases (quote c : Char) (s : Text) : StringCase quote c s := by
  by_cases hc : c = '\\'
  · by_cases hcrlf : ∃ t, s = ['\r', '\n'] ++ t
    · obtain ⟨t, hs⟩ := hcrlf
      exact .crlf hc hs
    · exact .escape hc (not_exists.mp hcrlf)
  · by_cases hquote : c = quote
    · exact .close hc hquote
    · cases hn : isNewline c with
      | true => exact .newline hc hquote hn
      | false => exact .plain hc hquote hn

theorem stringBody_close {quote : Char} (hback : quote ≠ '\\') (s : Text) :
    stringBody quote (quote :: s) = (⟨.string, [quote]⟩, s) := by
  rw [stringBody_cons hback, if_pos rfl]

theorem stringBody_newline {quote c : Char} (hc : c ≠ '\\') (hquote : c ≠ quote)
    (hn : isNewline c = true) (s : Text) :
    stringBody quote (c :: s) = (⟨.badString, []⟩, c :: s) := by
  rw [stringBody_cons hc, if_neg hquote, if_pos hn]

theorem stringBody_plain {quote c : Char} (hc : c ≠ '\\') (hquote : c ≠ quote)
    (hn : isNewline c = false) (s : Text) :
    stringBody quote (c :: s) = prepend [c] (stringBody quote s) := by
  rw [stringBody_cons hc, if_neg hquote, if_neg (by simp [hn])]

theorem leaves_stringBody (quote : Char) : Leaves (stringBody quote) :=
  .of_append (stringBody_append quote)

theorem length_stringBody_backslash {quote : Char} (hq : quote ≠ '\\') (s : Text) :
    (stringBody quote ('\\' :: s)).2.length ≤ s.length := by
  by_cases h : ∃ t, s = ['\r', '\n'] ++ t
  · obtain ⟨t, rfl⟩ := h
    rw [stringBody_crlf hq]
    have := (leaves_stringBody quote t).length_le
    simp only [prepend, List.length_append]
    omega
  · rw [stringBody_escape hq (not_exists.mp h)]
    exact ((leaves_stringBody quote _).trans (leaves_escape s)).length_le

theorem isNewline_stop (hc : isStop c = true) : isNewline c = false := by
  rcases isStop_iff.mp hc with rfl | rfl | rfl | rfl | rfl | rfl | rfl | rfl | rfl <;> rfl

/-- Nothing is taken of a string only in front of a newline. -/
theorem newline_of_stringBody {quote : Char} (hback : quote ≠ '\\') {s : Text}
    (h : (stringBody quote (c :: s)).2 = c :: s) :
    c ≠ '\\' ∧ c ≠ quote ∧ isNewline c = true := by
  have hc : c ≠ '\\' := by
    rintro rfl
    exact not_left (y := []) (length_stringBody_backslash hback s) h
  rw [stringBody_cons hc] at h
  split at h
  · exact absurd h (not_left (y := []) (Nat.le_refl _))
  · next hquote =>
    split at h
    · next hn => exact ⟨hc, hquote, hn⟩
    · exact absurd h (not_left (y := []) (leaves_stringBody quote s).length_le)

theorem local_stringBody {quote : Char} (hq : quote = '"' ∨ quote = '\'') :
    Local (stringBody quote) := by
  have hback : quote ≠ '\\' := by rcases hq with rfl | rfl <;> decide
  apply Local.of_cons
  intro w y c r r' h hrest
  induction hlen : w.length using Nat.strong_induction_on generalizing w y with
  | _ n ih =>
    rcases w with _ | ⟨d, w⟩
    · obtain rfl := left_eq_nil (hrest ▸ leaves_stringBody quote (c :: r))
      obtain ⟨hc, hquote, hn⟩ := newline_of_stringBody hback hrest
      obtain ⟨t, rfl⟩ | ⟨hstop, -⟩ := h.cases_cons
      · simp only [List.nil_append, stringBody_newline hc hquote hn]
      · rw [isNewline_stop hstop] at hn
        cases hn
    · simp only [List.length_cons] at hlen
      rw [List.cons_append] at hrest
      cases stringBody_cases quote d (w ++ c :: r) with
      | @crlf hd t ht =>
        subst hd
        rw [ht, stringBody_crlf hback] at hrest
        obtain ⟨v, rfl, rfl⟩ := exists_front ht (leaves_stringBody quote t) hrest
        simp only [List.length_append] at hlen
        have hnext := ih _ (by omega) v y hrest rfl
        have hcons (s : Text) :
            '\\' :: (['\r', '\n'] ++ v) ++ s = '\\' :: (['\r', '\n'] ++ (v ++ s)) := rfl
        rw [hcons, hcons, stringBody_crlf hback, stringBody_crlf hback, hnext]
        rfl
      | escape hd hnot =>
        subst hd
        have hnot' := h.not_front (w := w) (p := ['\r', '\n']) (.inr (by simp [lookaheads])) hnot
        rw [stringBody_escape hback hnot] at hrest
        rw [List.cons_append, List.cons_append, stringBody_escape hback hnot,
          stringBody_escape hback hnot']
        obtain ⟨v, hlt, hv, hescape⟩ := exists_escape h (leaves_stringBody quote _) hrest
        change (stringBody quote (escape (w ++ c :: r)).2).2 = _ at hrest
        rw [hescape]
        rw [hv] at hrest ⊢
        rw [ih _ (by omega) v y hrest rfl]
        rfl
      | close hd hquote =>
        subst hquote
        rw [stringBody_close hd] at hrest
        rw [List.cons_append, List.cons_append, stringBody_close hd, stringBody_close hd,
          front_eq hrest]
      | newline hd hquote hn =>
        rw [stringBody_newline hd hquote hn] at hrest
        rw [List.cons_append, List.cons_append, stringBody_newline hd hquote hn,
          stringBody_newline hd hquote hn, front_eq (w := d :: w) hrest]
        rfl
      | plain hd hquote hn =>
        rw [stringBody_plain hd hquote hn] at hrest
        rw [List.cons_append, List.cons_append, stringBody_plain hd hquote hn,
          stringBody_plain hd hquote hn, ih _ (by omega) w y hrest rfl]
        rfl

theorem leaves_badUrlTail : Leaves badUrlTail := .of_span badUrlTail_append

theorem badUrlTail_pair {c : Char} (hc : c = ')' ∨ c = '\\') (s : Text) :
    badUrlTail ('\\' :: c :: s) = ('\\' :: c :: (badUrlTail s).1, (badUrlTail s).2) := by
  have : (c == ')' || c == '\\') = true := by simpa using hc
  simp [badUrlTail, this]

theorem badUrlTail_cons {c : Char} {s : Text} (hc : c ≠ ')')
    (h : c = '\\' → ∀ e, e = ')' ∨ e = '\\' → ∀ t, s ≠ [e] ++ t) :
    badUrlTail (c :: s) = (c :: (badUrlTail s).1, (badUrlTail s).2) := by
  by_cases hb : c = '\\'
  · subst hb
    rcases s with _ | ⟨d, t⟩
    · rfl
    · have hd : ¬(d = ')' ∨ d = '\\') := fun hd => h rfl d hd t rfl
      simp [badUrlTail, not_or.mp hd]
  · simp [badUrlTail, hb, hc]

theorem badUrlTail_ne_nil (c : Char) (s : Text) : (badUrlTail (c :: s)).1 ≠ [] := by
  rw [badUrlTail.eq_def]
  split
  · next heq => cases heq
  · split <;> simp
  · split <;> simp

theorem local_badUrlTail : Local badUrlTail := by
  apply Local.of_cons
  intro w y c r r' h hrest
  induction hlen : w.length using Nat.strong_induction_on generalizing w y with
  | _ n ih =>
    rcases w with _ | ⟨d, w⟩
    · exact absurd hrest (taken (badUrlTail_append (c :: r)) (badUrlTail_ne_nil c r))
    · simp only [List.length_cons] at hlen
      by_cases hclose : d = ')'
      · subst hclose
        obtain rfl : y = w := front_eq hrest
        rfl
      · by_cases hpair : d = '\\' ∧ ∃ e t, (e = ')' ∨ e = '\\') ∧ w ++ c :: r = [e] ++ t
        · obtain ⟨rfl, e, t, he, ht⟩ := hpair
          rw [List.cons_append, ht, List.singleton_append, badUrlTail_pair he] at hrest
          obtain ⟨v, rfl, rfl⟩ := exists_front ht (leaves_badUrlTail t) hrest
          simp only [List.length_append] at hlen
          have hnext := ih _ (by omega) v y hrest rfl
          have hcons (s : Text) : '\\' :: ([e] ++ v) ++ s = '\\' :: e :: (v ++ s) := rfl
          rw [hcons, hcons, badUrlTail_pair he, badUrlTail_pair he, hnext]
        · have hnot (hd : d = '\\') (e : Char) (he : e = ')' ∨ e = '\\') (t : Text) :
              w ++ c :: r ≠ [e] ++ t := fun ht => hpair ⟨hd, e, t, he, ht⟩
          have hnot' (hd : d = '\\') (e : Char) (he : e = ')' ∨ e = '\\') (t : Text) :
              w ++ r' ≠ [e] ++ t := h.not_front (.inl rfl) (hnot hd e he) t
          rw [List.cons_append, badUrlTail_cons hclose hnot] at hrest
          rw [List.cons_append, List.cons_append, badUrlTail_cons hclose hnot,
            badUrlTail_cons hclose hnot', ih _ (by omega) w y hrest rfl]

theorem local_badUrl : Local badUrl :=
  local_badUrlTail.map fun source => (⟨.badUrl, source⟩ : Token)

theorem leaves_urlBody : Leaves urlBody := .of_append urlBody_append

theorem urlEnd_ne_nil (c : Char) (s : Text) : (urlEnd (c :: s)).1.source ≠ [] := by
  rw [urlEnd]
  split
  · simp
  · split <;> simp [prepend]

theorem local_urlEnd : Local urlEnd := by
  apply Local.of_cons
  intro w y c r r' h hrest
  induction w generalizing y with
  | nil => exact absurd hrest (taken (urlEnd_append (c :: r)) (urlEnd_ne_nil c r))
  | cons d w ih =>
    simp only [List.cons_append, urlEnd] at hrest ⊢
    split at hrest
    · next hd => rw [if_pos hd, if_pos hd, front_eq hrest]
    · next hd =>
      split at hrest
      · next hs =>
        rw [if_neg hd, if_pos hs, if_neg hd, if_pos hs, ih y hrest]
        rfl
      · next hs =>
        rw [if_neg hd, if_neg hs, if_neg hd, if_neg hs, local_badUrl w y _ _ h hrest]
        rfl

theorem urlBody_ne_nil (c : Char) (s : Text) : (urlBody (c :: s)).1.source ≠ [] := by
  rw [urlBody]
  split
  · simp
  · split
    · simp [prepend]
    · split
      · simp [prepend]
      · split <;> simp [prepend]

theorem local_urlBody : Local urlBody := by
  apply Local.of_cons
  intro w y c r r' h hrest
  induction hlen : w.length using Nat.strong_induction_on generalizing w y with
  | _ n ih =>
    rcases w with _ | ⟨d, w⟩
    · exact absurd hrest (taken (urlBody_append (c :: r)) (urlBody_ne_nil c r))
    · simp only [List.length_cons] at hlen
      have hnewline : startsNewline (w ++ c :: r) = startsNewline (w ++ r') :=
        (h.append w).startsNewline
      rw [List.cons_append, urlBody, hnewline] at hrest
      rw [List.cons_append, urlBody, List.cons_append, urlBody, hnewline]
      split at hrest
      · next hd => rw [if_pos hd, if_pos hd, front_eq hrest]
      next hd =>
      split at hrest
      · next hs =>
        rw [if_neg hd, if_pos hs, if_neg hd, if_pos hs, local_urlEnd w y _ _ h hrest]
        rfl
      next hs =>
      split at hrest
      · next hbad =>
        rw [if_neg hd, if_neg hs, if_pos hbad, if_neg hd, if_neg hs, if_pos hbad,
          local_badUrl w y _ _ h hrest]
        rfl
      next hbad =>
      split at hrest
      · next hb =>
        rw [if_neg hd, if_neg hs, if_neg hbad, if_pos hb, if_neg hd, if_neg hs, if_neg hbad,
          if_pos hb]
        obtain ⟨v, hlt, hv, hescape⟩ := exists_escape h (leaves_urlBody _) hrest
        change (urlBody (escape (w ++ c :: r)).2).2 = _ at hrest
        rw [hescape]
        rw [hv] at hrest ⊢
        rw [ih _ (by omega) v y hrest rfl]
        rfl
      · next hb =>
        rw [if_neg hd, if_neg hs, if_neg hbad, if_neg hb, if_neg hd, if_neg hs, if_neg hbad,
          if_neg hb, ih _ (by omega) w y hrest rfl]
        rfl

theorem leaves_commentBody : Leaves commentBody := .of_span commentBody_append

theorem commentBody_cons {c : Char} {s : Text} (h : ∀ t, c :: s ≠ ['*', '/'] ++ t) :
    commentBody (c :: s) = (c :: (commentBody s).1, (commentBody s).2) := by
  rw [commentBody]
  rintro t rfl rfl
  exact h t rfl

theorem commentBody_ne_nil (c : Char) (s : Text) : (commentBody (c :: s)).1 ≠ [] := by
  unfold commentBody
  split <;> simp_all

theorem local_commentBody : Local commentBody := by
  apply Local.of_cons
  intro w y c r r' h hrest
  induction w generalizing y with
  | nil => exact absurd hrest (taken (commentBody_append (c :: r)) (commentBody_ne_nil c r))
  | cons d w ih =>
    by_cases hend : ∃ t, d :: w ++ c :: r = ['*', '/'] ++ t
    · obtain ⟨t, ht⟩ := hend
      rw [ht] at hrest
      obtain ⟨v, hv, rfl⟩ := exists_front ht (List.suffix_refl t) hrest
      obtain rfl : y = v := front_eq hrest
      rw [hv]
      rfl
    · have hnot := not_exists.mp hend
      have hnot' := h.not_front (w := d :: w) (p := ['*', '/']) (.inr (by simp [lookaheads])) hnot
      rw [List.cons_append] at hnot hnot'
      rw [List.cons_append, commentBody_cons hnot] at hrest
      rw [List.cons_append, List.cons_append, commentBody_cons hnot, commentBody_cons hnot',
        ih y hrest]

/-! ## Whole tokens -/

theorem identLike_ident {s : Text} (h : ∀ t, (name s).2 ≠ ['('] ++ t) :
    identLike s = (⟨.ident (name s).1.value, (name s).1.source⟩, (name s).2) := by
  unfold identLike
  dsimp only
  split
  · next t ht => exact absurd ht (h t)
  · rfl

theorem identLike_open {s t : Text} (h : (name s).2 = ['('] ++ t) :
    identLike s =
      if Text.eqIgnoringCase (name s).1.value ['u', 'r', 'l'] &&
          !startsQuote (t.dropWhile isSpace) then
        prepend ((name s).1.source ++ '(' :: t.takeWhile isSpace) (urlBody (t.dropWhile isSpace))
      else (⟨.function (name s).1.value, (name s).1.source ++ ['(']⟩, t) := by
  simp only [identLike, h, List.singleton_append]

/-- Behind `url(` comes no quote. -/
def opensUrlBody (value t : Text) : Bool :=
  Text.eqIgnoringCase value ['u', 'r', 'l'] && !startsQuote (t.dropWhile isSpace)

/-- What a name begins, by the bracket behind it. -/
inductive IdentLikeCase (s : Text) (t : Token) (r : Text) : Prop where
  | ident (hopen : ∀ u, (name s).2 ≠ ['('] ++ u)
    (ht : t = ⟨.ident (name s).1.value, (name s).1.source⟩) (hr : (name s).2 = r)
  | function (hopen : (name s).2 = ['('] ++ r) (hurl : opensUrlBody (name s).1.value r = false)
    (ht : t = ⟨.function (name s).1.value, (name s).1.source ++ ['(']⟩)
  | url {u : Text} (hopen : (name s).2 = ['('] ++ u) (hurl : opensUrlBody (name s).1.value u = true)
    (hkind : t.kind = .url ∨ t.kind = .badUrl)
    (hbody : prepend ((name s).1.source ++ '(' :: u.takeWhile isSpace)
      (urlBody (u.dropWhile isSpace)) = (t, r))

theorem identLike_cases {s : Text} {t : Token} (h : identLike s = (t, r)) :
    IdentLikeCase s t r := by
  by_cases hopen : ∃ u, (name s).2 = ['('] ++ u
  · obtain ⟨u, hu⟩ := hopen
    rw [identLike_open hu] at h
    split at h
    · next hurl =>
      have hkind := kind_urlBody (u.dropWhile isSpace)
      exact .url hu hurl ((Prod.mk.inj h).1 ▸ hkind) h
    · next hurl =>
      obtain ⟨ht, rfl⟩ := Prod.mk.inj h
      exact .function hu (eq_false_of_ne_true hurl) ht.symm
  · rw [identLike_ident (not_exists.mp hopen)] at h
    obtain ⟨ht, hr⟩ := Prod.mk.inj h
    exact .ident (not_exists.mp hopen) ht.symm hr

/-- A url takes the white space at its start first. -/
theorem leaves_urlSpace (s : Text) : (urlBody (s.dropWhile isSpace)).2 <:+ s :=
  (leaves_urlBody _).trans (List.dropWhile_suffix _)

theorem identLike_open_suffix {s t : Text} (h : (name s).2 = ['('] ++ t) :
    (identLike s).2 <:+ t := by
  rw [identLike_open h]
  split
  · exact leaves_urlSpace t
  · exact List.suffix_refl t

theorem identLike_suffix (s : Text) : (identLike s).2 <:+ (name s).2 := by
  by_cases h : ∃ t, (name s).2 = ['('] ++ t
  · obtain ⟨t, ht⟩ := h
    rw [ht]
    exact (identLike_open_suffix ht).trans (List.suffix_append _ _)
  · rw [identLike_ident (not_exists.mp h)]

theorem local_urlSpace : Local fun s =>
    ((s.takeWhile isSpace, (urlBody (s.dropWhile isSpace)).1),
      (urlBody (s.dropWhile isSpace)).2) :=
  (local_span isSpace).bind local_urlBody leaves_urlBody Prod.mk

theorem local_identLike : Local identLike := by
  intro w y r r' h hrest
  obtain ⟨v, -, hv⟩ := exists_left (identLike_suffix (w ++ r)) hrest
  have hname := local_name w v r r' h hv
  by_cases hopen : ∃ t, v ++ r = ['('] ++ t
  · obtain ⟨t, ht⟩ := hopen
    rw [ht] at hv
    obtain ⟨t, rfl, rfl⟩ := exists_front ht (identLike_open_suffix hv) hrest
    have hv' : (name (w ++ r')).2 = ['('] ++ (t ++ r') := by rw [hname]; rfl
    rw [identLike_open hv, (h.append t).quote] at hrest
    rw [identLike_open hv', identLike_open hv, hname, (h.append t).quote]
    split at hrest
    · next hurl =>
      have := local_urlSpace t y r r' h hrest
      simp only [Prod.mk.injEq] at this
      obtain ⟨⟨hspace, hbody⟩, hleft⟩ := this
      rw [if_pos hurl, if_pos hurl, prepend, prepend, hspace, hbody, hleft]
    · next hurl => rw [if_neg hurl, if_neg hurl, front_eq hrest]
  · have hnot := not_exists.mp hopen
    have hident : ∀ t, (name (w ++ r)).2 ≠ ['('] ++ t := by rw [hv]; exact hnot
    have hident' : ∀ t, (name (w ++ r')).2 ≠ ['('] ++ t := by
      rw [hname]
      exact h.not_front (.inl rfl) hnot
    rw [identLike_ident hident, hv] at hrest
    rw [identLike_ident hident, identLike_ident hident', hname, front_eq hrest]

/-- A name behind a sign that makes a token of it, if one comes there. -/
theorem local_named {starts : Text → Bool} (k : Name → Token) (t : Token)
    (hstarts : ∀ r r', Alike r r' → starts r = starts r') :
    Local fun s => if starts s then (k (name s).1, (name s).2) else (t, s) := by
  intro w y r r' h hrest
  have hsame := hstarts _ _ (h.append w)
  simp only [hsame] at hrest ⊢
  split at hrest
  · next hs => rw [if_pos hs, if_pos hs, local_name w y r r' h hrest]
  · next hs => rw [if_neg hs, if_neg hs, front_eq hrest]

theorem local_hash : Local (symbol '#') := by
  have hstarts (r r' : Text) (h : Alike r r') : startsHash r = startsHash r' := by
    have hhead := h.any_head? (p := fun d => d.isDigit || d == '-') fun c hc => by
      rcases isStop_iff.mp hc with rfl | rfl | rfl | rfl | rfl | rfl | rfl | rfl | rfl <;> rfl
    rw [startsHash, startsHash, h.name, hhead]
  have := local_named (fun n => ⟨.hash n.value, '#' :: n.source⟩) ⟨.delim '#', ['#']⟩ hstarts
  simpa only [funext symbol_hash] using this

theorem local_at : Local (symbol '@') := by
  have hstarts (r r' : Text) (h : Alike r r') : startsName r = startsName r' := h.name
  have := local_named (fun n => ⟨.atKeyword n.value, '@' :: n.source⟩) ⟨.delim '@', ['@']⟩ hstarts
  simpa only [funext symbol_at] using this

theorem local_space {c : Char} (hspace : isSpace c = true) : Local (symbol c) := by
  have := (local_span isSpace).map fun spaces => (⟨.whitespace, c :: spaces⟩ : Token)
  simpa only [funext (symbol_space hspace)] using this

theorem local_symbol (c : Char) : Local (symbol c) := by
  intro w y r r' h hrest
  cases symbol_cases c (w ++ r) with
  | space hspace => exact local_space hspace w y r r' h hrest
  | quote hquote =>
    rw [symbol_quote hquote] at hrest
    rw [symbol_quote hquote, symbol_quote hquote, prepend, prepend,
      local_stringBody hquote w y r r' h hrest]
  | atSign hc =>
    subst hc
    exact local_at w y r r' h hrest
  | hashSign hc =>
    subst hc
    exact local_hash w y r r' h hrest
  | @comment hc t hs =>
    subst hc
    rw [hs, symbol_comment] at hrest
    obtain ⟨v, rfl, rfl⟩ := exists_front hs (leaves_commentBody t) hrest
    rw [List.append_assoc, List.append_assoc, symbol_comment, symbol_comment,
      local_commentBody v y r r' h hrest]
  | @cdo hc t hs =>
    subst hc
    rw [hs] at hrest
    obtain ⟨v, rfl, rfl⟩ := exists_front hs (List.suffix_refl t) hrest
    obtain rfl : y = v := front_eq hrest
    rfl
  | @attributeMatch hc t hs =>
    rw [hs, symbol_match hc] at hrest
    obtain ⟨v, rfl, rfl⟩ := exists_front hs (List.suffix_refl t) hrest
    rw [List.append_assoc, List.append_assoc, symbol_match hc, symbol_match hc, front_eq hrest]
  | single halone =>
    have halone' : StandsAlone c (w ++ r') :=
      { halone with
        comment := fun hc => h.not_front (p := ['*']) (.inl rfl) (halone.comment hc)
        cdo := fun hc =>
          h.not_front (p := ['!', '-', '-']) (.inr (by simp [lookaheads])) (halone.cdo hc)
        attributeMatch := fun hc =>
          h.not_front (p := ['=']) (.inl rfl) (halone.attributeMatch hc) }
    rw [symbol_single halone] at hrest
    rw [symbol_single halone, symbol_single halone', front_eq hrest]

theorem next?_cons {c : Char} {s : Text} (h : c = '-' → ∀ t, s ≠ ['-', '>'] ++ t) :
    next? (c :: s) =
      some (if startsNumber (c :: s) then numeric (c :: s)
        else if startsName (c :: s) then identLike (c :: s)
        else symbol c s) := by
  unfold next?
  split
  · next heq => cases heq
  · next t heq =>
    cases heq
    exact absurd rfl (h rfl t)
  · next heq =>
    cases heq
    rfl

theorem symbol_stop (hc : isStop c = true) (r : Text) :
    symbol c r = (⟨single c, [c]⟩, r) := by
  rcases isStop_iff.mp hc with rfl | rfl | rfl | rfl | rfl | rfl | rfl | rfl | rfl <;>
    exact symbol_single
      ⟨by decide, by decide, by simp, by simp, by simp, by simp, by simp⟩

/-- A bracket, a colon, a semicolon or a comma is a token wherever a token starts. -/
theorem next?_stop (hc : isStop c = true) (r : Text) :
    next? (c :: r) = some (⟨single c, [c]⟩, r) := by
  rw [next?_cons, startsNumber_stop hc, startsName_stop hc, symbol_stop hc]
  · rfl
  · rintro rfl
    cases hc

/-- The name in the token of a word. -/
def Kind.word? : Kind → Option Text
  | .ident value => some value
  | .function value => some value
  | .dimension unit => some unit
  | _ => none

theorem word?_single (c : Char) : (single c).word? = none := by
  unfold single
  repeat' split
  all_goals rfl

theorem word?_symbol (c : Char) (s : Text) : (symbol c s).1.kind.word? = none := by
  cases symbol_cases c s with
  | space hspace => rw [symbol_space hspace]; rfl
  | quote hquote =>
    rw [symbol_quote hquote, prepend]
    rcases kind_stringBody c s with h | h <;> rw [h] <;> rfl
  | atSign hc =>
    subst hc
    rw [symbol_at]
    split <;> rfl
  | hashSign hc =>
    subst hc
    rw [symbol_hash]
    split <;> rfl
  | comment hc hs => subst hc hs; rfl
  | cdo hc hs => subst hc hs; rfl
  | attributeMatch hc hs =>
    subst hs
    rw [symbol_match hc]
    rfl
  | single halone =>
    rw [symbol_single halone]
    exact word?_single c

/-- Only a number and a name make a word. -/
theorem next?_word {s r : Text} {t : Token} {value : Text} (h : next? s = some (t, r))
    (ht : t.kind.word? = some value) :
    startsNumber s = true ∧ numeric s = (t, r) ∨
      startsNumber s = false ∧ startsName s = true ∧ identLike s = (t, r) := by
  cases next?_cases h with
  | cdc htoken =>
    rw [htoken] at ht
    cases ht
  | numeric hstarts h => exact .inl ⟨hstarts, h⟩
  | identLike hnumber hstarts h => exact .inr ⟨hnumber, hstarts, h⟩
  | @symbol c s _ _ _ h =>
    have hsymbol := word?_symbol c s
    rw [h, ht] at hsymbol
    cases hsymbol

/-- The first token is the same in front of a text that looks alike. -/
theorem next?_exchange {w y r r' : Text} {t : Token} (h : Alike r r')
    (ht : next? (w ++ r) = some (t, y ++ r)) : next? (w ++ r') = some (t, y ++ r') := by
  rcases w with _ | ⟨c, w⟩
  · have hnil : t.source ++ y = [] := by
      have := next?_append ht
      rw [← List.append_assoc] at this
      exact List.append_left_eq_self.mp this
    exact absurd (List.append_eq_nil_iff.mp hnil).1 (next?_source_ne_nil ht)
  · by_cases hcdc : c = '-' ∧ ∃ t, w ++ r = ['-', '>'] ++ t
    · obtain ⟨rfl, s, hs⟩ := hcdc
      rw [List.cons_append, hs] at ht
      obtain ⟨rfl, hy⟩ := Prod.mk.inj (Option.some.inj ht)
      obtain ⟨v, rfl, rfl⟩ := exists_front hs (List.suffix_refl s) hy
      rw [front_eq hy.symm]
      rfl
    · have hne : c = '-' → ∀ t, w ++ r ≠ ['-', '>'] ++ t := fun hc s hs => hcdc ⟨hc, s, hs⟩
      have hne' : c = '-' → ∀ t, w ++ r' ≠ ['-', '>'] ++ t :=
        fun hc => h.not_front (p := ['-', '>']) (.inr (by simp [lookaheads])) (hne hc)
      have hnumber := (h.append (c :: w)).number
      have hname := (h.append (c :: w)).name
      simp only [List.cons_append] at hnumber hname
      rw [List.cons_append, next?_cons hne, hnumber, hname] at ht
      rw [List.cons_append, next?_cons hne']
      have ht := Option.some.inj ht
      split at ht
      · next hs =>
        have := local_numeric (c :: w) y r r' h (congrArg Prod.snd ht)
        simp only [List.cons_append, ht] at this
        rw [if_pos hs, this]
      · next hs =>
        split at ht
        · next hs' =>
          have := local_identLike (c :: w) y r r' h (congrArg Prod.snd ht)
          simp only [List.cons_append, ht] at this
          rw [if_neg hs, if_pos hs', this]
        · next hs' =>
          have := local_symbol c w y r r' h (congrArg Prod.snd ht)
          simp only [ht] at this
          rw [if_neg hs, if_neg hs', this]

/-- Tokens are the same in front of a text that looks alike. -/
theorem Lexes.exchange {ts : List Token} {r r' : Text} (hts : Lexes ts r) (h : Alike r r') :
    Lexes ts r' := by
  induction ts with
  | nil => exact lexes_nil _
  | cons t ts ih =>
    obtain ⟨hn, hts⟩ := lexes_cons_iff.mp hts
    rw [← List.append_assoc] at hn
    have := next?_exchange h hn
    rw [List.append_assoc] at this
    exact lexes_cons_iff.mpr ⟨this, ih hts⟩

theorem lexes_stop (hc : isStop c = true) (rest : Text) : Lexes [⟨single c, [c]⟩] rest :=
  lexes_cons_iff.mpr ⟨next?_stop hc _, lexes_nil rest⟩

/-- Tokens in front of a colon do not depend on what stands behind it. -/
theorem lexes_colon {ts : List Token} {r : Text} (h : Lexes ts (':' :: r)) (r' : Text) :
    Lexes ts (':' :: r') :=
  h.exchange (.of_stop rfl r r')

/-- Tokens in front of a character that stops are tokens at the end of a text. -/
theorem Lexes.at_end {ts : List Token} {r : Text} (h : Lexes ts (c :: r)) (hc : isStop c = true) :
    Lexes ts [] :=
  h.exchange (.of_end hc r)

end Relength.Token
