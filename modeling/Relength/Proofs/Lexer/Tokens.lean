import Relength.Proofs.Lexer

/-!
# Marks and tokens

The marks that the lexer reports in a text are those of its tokens, except that a url which the end
of the text cuts off only opens its bracket (`Lexer.reports_next?`). So the lexer knows where a
token that ends an item starts, and the text in front of it is tokens of its own
(`Lexer.exists_lexes`).
-/

namespace Relength

namespace Lexer

open Token

variable {s u v : State} {a b r : Text} {ms ms' : List Mark} {c : Char}

theorem startsName_nameChars (s : Text) : startsName (nameChars s).2 = false := by
  rcases h : (nameChars s).2 with _ | ⟨c, t⟩
  · rfl
  · obtain ⟨hc, hb⟩ := nameChars_stop s h
    have hstart : isNameStart c = false := by
      simp only [isNameChar, Bool.or_eq_false_iff] at hc
      exact hc.1.1
    have hminus : c ≠ '-' := by
      rintro rfl
      cases hc
    unfold startsName
    split
    · next heq =>
      cases heq
      exact absurd rfl hminus
    · next heq =>
      cases heq
      exact absurd rfl hminus
    · next heq =>
      cases heq
      simpa using hb rfl
    · next heq =>
      cases heq
      exact hstart
    · rfl

theorem advanceAll_none (values : Text) : (Context.word none).advanceAll values = .word none := by
  induction values with
  | nil => rfl
  | cons v values ih => exact ih

/-- The rest of a name behind which a word is stuck. -/
theorem scans_stuck_name (s : Text) : Scans stuck (name s).1.source [] fresh (name s).2 := by
  have h := scans_nameChars none s
  rw [advanceAll_none] at h
  exact h.last (scans_stuck_end (startsName_nameChars s))

theorem scans_numeric {s : Text} (h : startsNumber s = true) :
    Scans fresh (numeric s).1.source [] fresh (numeric s).2 := by
  have hnumber (r : Text) : Scans fresh (numberSpan s).1 [] stuck r :=
    .of_run (run_neutral _ (neutral_numberSpan h)) r
  unfold numeric
  dsimp only
  split
  · exact (hnumber _).append' (.cons' (u := fresh) rfl (.refl _ _))
  · split
    · exact (hnumber _).append' (scans_stuck_name _)
    · next hname => exact (hnumber _).last (scans_stuck_end (by simpa using hname))

theorem scans_stringBody (double : Bool) (s : Text) :
    Scans (.plain (.string double)) (stringBody (quoteMark double) s).1.source [] fresh
      (stringBody (quoteMark double) s).2 := by
  have hq : quoteMark double ≠ '\\' := by cases double <;> decide
  fun_induction stringBody (quoteMark double) s with
  | case1 => exact .at_end _ _
  | case2 c r hc =>
    refine .cons' (u := fresh) ?_ (.refl _ _)
    simp only [beq_iff_eq] at hc
    simp [step, plainStep, hc]
  | case3 c r hc hn =>
    apply Scans.of_step
    intro d t hd
    cases hd
    have hb : c ≠ '\\' := by
      rintro rfl
      cases hn
    have hnewline : c = '\n' ∨ c = '\r' ∨ c = '\x0c' := by simpa [isNewline, or_assoc] using hn
    simp only [beq_iff_eq] at hc
    simp only [step, plainStep, hc, hn, if_true, if_false]
    rcases hnewline with rfl | rfl | rfl <;> rfl
  | case4 c hc hn hb r' ih =>
    obtain rfl : c = '\\' := by simpa using hb
    have hescaped : step (.plain (.string double)) '\\' = (.escaped (.string double), []) := by
      simp [step, plainStep, hq.symm, isNewline]
    exact .cons' hescaped
      (.cons' (u := .cr (.string double)) rfl (.cons' (u := .plain (.string double)) rfl ih))
  | case5 c hc hn hb r hcrlf ih =>
    obtain rfl : c = '\\' := by simpa using hb
    have hescaped : step (.plain (.string double)) '\\' = (.escaped (.string double), []) := by
      simp [step, plainStep, hq.symm, isNewline]
    have hescape := scans_escape (.string double) r (.inr ⟨⟨double, rfl⟩, hcrlf⟩)
    rw [← stringBody_append (quoteMark double) (escape r).2] at hescape
    exact .cons' hescaped (.append' hescape ih)
  | case6 c r hc hn hb ih =>
    have hstep : step (.plain (.string double)) c = (.plain (.string double), []) := by
      simp only [beq_iff_eq] at hc hb
      simp [step, plainStep, hc, hn, hb]
    exact .cons' hstep ih

theorem scans_commentBody (s : Text) :
    Scans (.comment false) (commentBody s).1 [] fresh (commentBody s).2 := by
  fun_induction commentBody s with
  | case1 => exact .at_end _ _
  | case2 r => exact .cons' (u := .comment true) rfl (.cons' (u := fresh) rfl (.refl _ _))
  | case3 c r hstar ih =>
    by_cases hc : c = '*'
    · -- The `*` does not end the comment, as no `/` follows it.
      subst hc
      refine .cons' (u := .comment true) rfl (.trans (Scans.of_step fun d t hd => ?_) ih)
      rw [commentBody_append] at hd
      have : d ≠ '/' := by
        rintro rfl
        exact hstar t rfl hd
      simp [step, this]
    · exact .cons' (u := .comment false) (by simp [step, hc]) ih

/-- The rest of a url. If the text ends in it, its bracket stays open. -/
def ScansUrl (s : State) (a r : Text) : Prop :=
  Scans s a [.closing .round] fresh r ∨ r = [] ∧ Scans s a [] fresh r

theorem ScansUrl.append (h : Scans s a [] u (b ++ r)) (h' : ScansUrl u b r) :
    ScansUrl s (a ++ b) r := by
  rcases h' with h' | ⟨rfl, h'⟩
  · exact .inl (h.append' h')
  · exact .inr ⟨rfl, h.append' h'⟩

theorem ScansUrl.cons (h : step s c = (u, [])) (h' : ScansUrl u a r) : ScansUrl s (c :: a) r :=
  ScansUrl.append (a := [c]) (.cons' h (.refl _ _)) h'

theorem ScansUrl.closer (h : step s ')' = (fresh, [.closing .round])) : ScansUrl s [')'] r :=
  .inl (.mark h (.refl _ _))

theorem scansUrl_badUrlTail (s : Text) :
    ScansUrl (.badUrl false) (badUrlTail s).1 (badUrlTail s).2 := by
  fun_induction badUrlTail s with
  | case1 => exact .inr ⟨rfl, .at_end _ _⟩
  | case2 c r hc ih => exact .cons (u := .badUrl true) rfl (.cons (u := .badUrl false) rfl ih)
  | case3 c r hc ih =>
    -- The backslash protects neither of the characters that it could.
    refine .cons (u := .badUrl true) rfl (.append (a := []) (Scans.of_step fun d t hd => ?_) ih)
    rw [badUrlTail_append] at hd
    cases hd
    simp only [Bool.or_eq_true, beq_iff_eq, not_or] at hc
    simp [step, hc]
  | case4 c r _ hc =>
    obtain rfl : c = ')' := by simpa using hc
    exact .closer rfl
  | case5 c r hb hc ih =>
    simp only [beq_iff_eq] at hc
    by_cases hbackslash : c = '\\'
    · subst hbackslash
      rcases r with _ | ⟨d, r⟩
      · exact .inr ⟨rfl, .cons' (u := .badUrl true) rfl (.at_end _ _)⟩
      · exact absurd rfl (hb d r rfl)
    · exact .cons (u := .badUrl false) (by simp [step, hc, hbackslash]) ih

theorem scansUrl_urlEnd (s : Text) : ScansUrl .urlEnd (urlEnd s).1.source (urlEnd s).2 := by
  fun_induction urlEnd s with
  | case1 => exact .inr ⟨rfl, .at_end _ _⟩
  | case2 c r hc =>
    obtain rfl : c = ')' := by simpa using hc
    exact .closer rfl
  | case3 c r hc hs ih =>
    simp only [beq_iff_eq] at hc
    exact .cons (u := .urlEnd) (by simp [step, hc, hs]) ih
  | case4 c r hc hs =>
    simp only [beq_iff_eq] at hc
    exact .cons (u := .badUrl false) (by simp [step, hc, hs]) (scansUrl_badUrlTail r)

theorem scansUrl_urlBody (s : Text) :
    ScansUrl (.plain .url) (urlBody s).1.source (urlBody s).2 := by
  fun_induction urlBody s with
  | case1 => exact .inr ⟨rfl, .at_end _ _⟩
  | case2 c r hc =>
    obtain rfl : c = ')' := by simpa using hc
    exact .closer rfl
  | case3 c r hc hs =>
    simp only [beq_iff_eq] at hc
    exact .cons (u := .urlEnd) (by simp [step, plainStep, hc, hs]) (scansUrl_urlEnd r)
  | case4 c r hc hs hbad =>
    simp only [beq_iff_eq] at hc
    by_cases hbreak : breaksUrl c = true
    · exact .cons (u := .badUrl false) (by simp [step, plainStep, hc, hs, hbreak])
        (scansUrl_badUrlTail r)
    · obtain ⟨rfl, hn⟩ : c = '\\' ∧ startsNewline r = true := by simpa [hbreak] using hbad
      refine .cons (u := .escaped .url) rfl (.append (a := []) (Scans.of_step fun d t hd => ?_)
        (scansUrl_badUrlTail r))
      have hd := (badUrl_append r).symm.trans hd
      subst hd
      have hnewline : d = '\n' ∨ d = '\r' ∨ d = '\x0c' := by
        simpa [startsNewline, isNewline, or_assoc] using hn
      rcases hnewline with rfl | rfl | rfl <;> rfl
  | case5 c r hc hs hbad hb ih =>
    obtain rfl : c = '\\' := by simpa using hb
    have hn : startsNewline r = false := by
      simp only [Bool.or_eq_true, Bool.and_eq_true, not_or] at hbad
      simpa using hbad.2
    have hescape := scans_escape .url r (.inl hn)
    rw [← urlBody_append (escape r).2] at hescape
    exact .cons (u := .escaped .url) rfl (.append hescape ih)
  | case6 c r hc hs hbad hb ih =>
    simp only [beq_iff_eq] at hc hb
    have hbreak : breaksUrl c = false := by
      simp only [Bool.or_eq_true, not_or] at hbad
      simpa using hbad.1
    exact .cons (u := .plain .url) (by simp [step, plainStep, hc, hs, hbreak, hb]) ih

/-- A word is `url` if that is the name that its characters spell. -/
theorem advanceAll_eq_url_iff (values : Text) :
    (Context.word (some 0)).advanceAll values = .word (some 3) ↔
      Text.eqIgnoringCase values ['u', 'r', 'l'] = true := by
  have hrest (n : Nat) (hn : n ≤ 3) : (Context.word (some n)).advanceAll values = .word (some 3) ↔
      values.map Char.toLower = urlName.drop n := by
    induction values generalizing n with
    | nil =>
      have : urlName.drop n = [] ↔ n = 3 := by
        rw [List.drop_eq_nil_iff]
        simp [urlName]
        omega
      simp [Context.advanceAll, eq_comm (a := ([] : Text)), this]
    | cons v values ih =>
      by_cases hv : urlName[n]? = some v.toLower
      · obtain ⟨hlt, hget⟩ := List.getElem?_eq_some_iff.mp hv
        have hstep : (Context.word (some n)).advanceAll (v :: values) =
            (Context.word (some (n + 1))).advanceAll values := by
          simp [Context.advanceAll, Context.advance, hv]
        rw [hstep, ih (n + 1) hlt, List.drop_eq_getElem_cons hlt, hget]
        simp
      · have hstep : (Context.word (some n)).advanceAll (v :: values) = .word none := by
          simpa [Context.advanceAll, Context.advance, hv] using advanceAll_none values
        rw [hstep]
        refine ⟨fun h => by simp at h, fun h => absurd ?_ hv⟩
        rw [← List.head?_drop, ← h]
        rfl
  rw [hrest 0 (by omega), Text.eqIgnoringCase, beq_iff_eq]
  rfl

theorem step_fresh_of_isSpace {c : Char} (h : isSpace c = true) : step fresh c = (fresh, []) := by
  have : c = ' ' ∨ c = '\t' ∨ c = '\n' ∨ c = '\r' ∨ c = '\x0c' := by
    simpa [isSpace, isNewline, or_assoc] using h
  rcases this with rfl | rfl | rfl | rfl | rfl <;> rfl

theorem isAlphanum_of_isSpace {c : Char} (h : isSpace c = true) : c.isAlphanum = false := by
  have : c = ' ' ∨ c = '\t' ∨ c = '\n' ∨ c = '\r' ∨ c = '\x0c' := by
    simpa [isSpace, isNewline, or_assoc] using h
  rcases this with rfl | rfl | rfl | rfl | rfl <;> rfl

theorem scans_urlOpen_spaces {p : Text} (h : ∀ c ∈ p, isSpace c = true) (r : Text) :
    Scans .urlOpen p [] .urlOpen r := by
  induction p with
  | nil => exact .refl _ _
  | cons c p ih =>
    have hstep : step .urlOpen c = (.urlOpen, []) := by simp [step, h c (by simp)]
    exact .cons' hstep (ih fun d hd => h d (by simp [hd]))

theorem scans_urlOpen {r : Text} (h : startsQuote (r.dropWhile isSpace) = true) :
    Scans .urlOpen [] [] fresh r := by
  induction r with
  | nil => exact .at_end _ _
  | cons c r ih =>
    by_cases hs : isSpace c = true
    · have hopen : step .urlOpen c = (.urlOpen, []) := by simp [step, hs]
      have hfresh := step_fresh_of_isSpace hs
      refine Scans.of_step₂ (isAlphanum_of_isSpace hs) (by rw [hopen, hfresh]) ?_
      rw [hopen, hfresh]
      exact ih (by simpa [hs] using h)
    · have hquote : c = '"' ∨ c = '\'' := by simpa [hs, startsQuote] using h
      apply Scans.of_step
      intro d t hd
      cases hd
      rcases hquote with rfl | rfl <;> rfl

/-- White space in front of a url that is not quoted. -/
theorem scans_urlOpen_plain {r : Text} (h : startsQuote (r.dropWhile isSpace) = false) :
    Scans .urlOpen (r.takeWhile isSpace) [] (.plain .url) (r.dropWhile isSpace) := by
  have hspaces : Scans .urlOpen (r.takeWhile isSpace) [] .urlOpen (r.dropWhile isSpace) :=
    scans_urlOpen_spaces (fun c hc => List.mem_takeWhile_imp hc) _
  refine hspaces.last (Scans.of_step fun d t hd => ?_)
  have hspace : isSpace d = false := by
    have := List.head?_dropWhile_not isSpace r
    simpa [hd] using this
  have hquote : ¬(d = '"' ∨ d = '\'') := by
    rw [hd] at h
    simpa [startsQuote] using h
  simp [step, hspace, hquote]

/-- What a token does to the lexer: its marks are reported, unless it is a url that the end of the
text cuts off. -/
def Reports (t : Token) (rest : Text) : Prop :=
  Scans fresh t.source t.kind.marks fresh rest ∨
    rest = [] ∧ (t.kind = .url ∨ t.kind = .badUrl) ∧
      Scans fresh t.source [.opening .round] fresh rest

theorem reports_identLike (s : Text) : Reports (identLike s).1 (identLike s).2 := by
  have hname := scans_nameChars (some 0) s
  have hstop (c : Char) (t : Text) (ht : (nameChars s).2 = c :: t) := nameChars_stop s ht
  have hspelled := advanceAll_eq_url_iff (name s).1.value
  obtain ⟨url, hurl⟩ := advanceAll_word (some 0) (name s).1.value
  rw [hurl] at hspelled
  rw [show (Context.word (some 0)).advanceAll ((nameChars s).1.map NameChar.value) =
    .word url from hurl] at hname
  unfold identLike
  dsimp only
  split
  · next r hr =>
    have hr : (nameChars s).2 = '(' :: r := hr
    rw [hr] at hname
    split
    · next hbody =>
      simp only [Bool.and_eq_true, Bool.not_eq_true'] at hbody
      obtain rfl : url = some 3 := by simpa using hspelled.mpr hbody.1
      have hrest : '(' :: r = ('(' :: r.takeWhile isSpace) ++ r.dropWhile isSpace :=
        congrArg ('(' :: ·) List.takeWhile_append_dropWhile.symm
      have hspaces := scans_urlOpen_plain (by simpa using hbody.2)
      rw [hrest] at hname
      have hopen :
          Scans fresh ((name s).1.source ++ '(' :: r.takeWhile isSpace) [.opening .round]
            (.plain .url) (r.dropWhile isSpace) :=
        hname.append (.mark (u := .urlOpen) rfl hspaces)
      rw [← urlBody_append (r.dropWhile isSpace)] at hopen
      have hkind := kind_urlBody (r.dropWhile isSpace)
      rcases scansUrl_urlBody (r.dropWhile isSpace) with hbody' | ⟨hend, hbody'⟩
      · refine .inl ?_
        have hmarks :
            (urlBody (r.dropWhile isSpace)).1.kind.marks = [.opening .round, .closing .round] := by
          rcases hkind with h | h <;> rw [h] <;> rfl
        rw [prepend, hmarks]
        exact hopen.append hbody'
      · exact .inr ⟨hend, hkind, hopen.append hbody'⟩
    · next hbody =>
      have hstep : step (.plain (.word url)) '(' =
          (if url = some 3 then .urlOpen else fresh, [.opening .round]) := by
        simp [step, plainStep, wordStep, isNameChar, isNameStart]
      have hopen : Scans (if url = some 3 then .urlOpen else fresh) [] [] fresh r := by
        split
        · next h3 =>
          have hurl : Text.eqIgnoringCase (name s).1.value ['u', 'r', 'l'] = true :=
            hspelled.mp (by rw [h3])
          exact scans_urlOpen (by simpa [hurl] using hbody)
        · exact .refl _ _
      exact .inl (hname.append (.mark hstep hopen))
  · next r hr =>
    refine .inl (hname.last (scans_name_end url hstop fun t ht => absurd ht (hr t)))

theorem scans_fresh_spaces {p : Text} (h : ∀ c ∈ p, isSpace c = true) (r : Text) :
    Scans fresh p [] fresh r := by
  induction p with
  | nil => exact .refl _ _
  | cons c p ih =>
    exact .cons' (step_fresh_of_isSpace (h c (by simp))) (ih fun d hd => h d (by simp [hd]))

/-- A `<` that does not begin `<!--` is a token of its own. -/
theorem scans_less {r : Text} (h : ∀ t, r ≠ '!' :: '-' :: '-' :: t) :
    Scans (.less 0) [] [] fresh r := by
  rcases r with _ | ⟨c, r⟩
  · exact .at_end _ _
  · by_cases hc : c = '!'
    · subst hc
      refine .of_step₂ rfl rfl ?_
      rcases r with _ | ⟨d, r⟩
      · exact .at_end _ _
      · by_cases hd : d = '-'
        · subst hd
          refine .of_step₂ rfl rfl (Scans.of_step fun e t he => ?_)
          have : e ≠ '-' := by
            rintro rfl
            exact h t (by rw [he])
          change (if e = '-' then (fresh, []) else wordStep none e) = wordStep none e
          rw [if_neg this]
        · apply Scans.of_step
          intro e t he
          cases he
          change (if d = '-' then (State.less 2, []) else wordStep (some 0) d) = wordStep (some 0) d
          rw [if_neg hd]
    · apply Scans.of_step
      intro e t he
      cases he
      simp [step, fresh, plainStep, hc]

/-- Of the characters of names only a minus may stand where neither a number nor a name starts. -/
theorem minus_of_isNameChar {c : Char} {r : Text} (hc : isNameChar c = true) (hb : c ≠ '\\')
    (hnumber : startsNumber (c :: r) = false) (hname : startsName (c :: r) = false) :
    c = '-' ∧ startsName r = false := by
  by_cases hminus : c = '-'
  · subst hminus
    refine ⟨rfl, ?_⟩
    rcases r with _ | ⟨d, t⟩
    · rfl
    · have hd : d ≠ '\\' := by
        rintro rfl
        cases hname
      have : isNameStart d = false ∧ d ≠ '-' := by simpa [startsName, hd] using hname
      simp [startsName, this]
  · exfalso
    have hstart : isNameStart c = false := by simpa [startsName, hminus, hb] using hname
    have hdigit : c.isDigit = true := by simpa [isNameChar, hstart, hminus] using hc
    have hplus : c ≠ '+' := by
      rintro rfl
      cases hdigit
    have hpoint : c ≠ '.' := by
      rintro rfl
      cases hdigit
    simp [startsNumber, startsUnsigned, hminus, hplus, hpoint, hdigit] at hnumber

/-- The token of one character, where no longer token starts. -/
theorem scans_single {c : Char} {r : Text} (halone : StandsAlone c r)
    (hnumber : startsNumber (c :: r) = false) (hname : startsName (c :: r) = false) :
    Scans fresh [c] (single c).marks fresh r := by
  by_cases hb : c = '\\'
  · subst hb
    have hn : startsNewline r = true := by simpa [startsName] using hname
    refine (Scans.cons' (u := .escaped (.word (some 0))) rfl (.refl _ _)).last
      (Scans.of_step fun d t hd => ?_)
    subst hd
    have : d = '\n' ∨ d = '\r' ∨ d = '\x0c' := by
      simpa [startsNewline, isNewline, or_assoc] using hn
    rcases this with rfl | rfl | rfl <;> rfl
  by_cases hc : isNameChar c = true
  · obtain ⟨rfl, hr⟩ := minus_of_isNameChar hc hb hnumber hname
    exact (Scans.cons' (u := stuck) rfl (.refl _ _)).last (scans_stuck_end hr)
  by_cases hslash : c = '/'
  · subst hslash
    refine (Scans.cons' (u := .slash) rfl (.refl _ _)).last (Scans.of_step fun d t hd => ?_)
    have : d ≠ '*' := by
      rintro rfl
      exact halone.comment rfl t hd
    simp [step, fresh, plainStep, this]
  by_cases hless : c = '<'
  · subst hless
    exact (Scans.cons' (u := .less 0) rfl (.refl _ _)).last (scans_less (halone.cdo rfl))
  · refine .mark (u := fresh) ?_ (.refl _ _)
    by_cases hopen : c = '('
    · subst hopen
      rfl
    · simp [step, fresh, plainStep, wordStep, hb, hc, halone.hashSign, halone.atSign, hslash, hless,
        hopen, halone.quote]

theorem reports_string {c : Char} (hc : c = '"' ∨ c = '\'') (r : Text) :
    Reports (prepend [c] (stringBody c r)).1 (prepend [c] (stringBody c r)).2 := by
  obtain ⟨double, rfl⟩ : ∃ double, c = quoteMark double := by
    rcases hc with rfl | rfl
    · exact ⟨true, rfl⟩
    · exact ⟨false, rfl⟩
  have hstep : step fresh (quoteMark double) = (.plain (.string double), []) := by
    cases double <;> rfl
  have hmarks : (stringBody (quoteMark double) r).1.kind.marks = [] := by
    rcases kind_stringBody (quoteMark double) r with h | h <;> rw [h] <;> rfl
  refine .inl ?_
  rw [prepend, hmarks]
  exact .cons' hstep (scans_stringBody double r)

theorem reports_symbol {c : Char} {r : Text} (hnumber : startsNumber (c :: r) = false)
    (hname : startsName (c :: r) = false) : Reports (symbol c r).1 (symbol c r).2 := by
  cases symbol_cases c r with
  | space hspace =>
    rw [symbol_space hspace]
    refine .inl (scans_fresh_spaces (fun d hd => ?_) _)
    rcases List.mem_cons.mp hd with rfl | hd
    · exact hspace
    · exact List.mem_takeWhile_imp hd
  | quote hquote =>
    rw [symbol_quote hquote]
    exact reports_string hquote r
  | atSign hc =>
    subst hc
    rw [symbol_at]
    split
    · exact .inl (.cons' (u := stuck) rfl (scans_stuck_name _))
    · next hr =>
      have hend := scans_stuck_end (by simpa using hr)
      exact .inl ((Scans.cons' (u := stuck) rfl (.refl _ _)).last hend)
  | hashSign hc =>
    subst hc
    rw [symbol_hash]
    split
    · exact .inl (.cons' (u := stuck) rfl (scans_stuck_name _))
    · next hr =>
      simp only [startsHash, Bool.or_eq_true, not_or] at hr
      have hend := scans_stuck_end (by simpa using hr.1)
      exact .inl ((Scans.cons' (u := stuck) rfl (.refl _ _)).last hend)
  | comment hc hs =>
    subst hc hs
    exact .inl (.cons' (u := .slash) rfl (.cons' (u := .comment false) rfl (scans_commentBody _)))
  | cdo hc hs =>
    subst hc hs
    exact .inl (.of_run rfl _)
  | attributeMatch hc hs =>
    subst hs
    rw [symbol_match hc]
    refine .inl (.of_run ?_ _)
    simp only [List.mem_cons, List.not_mem_nil, or_false] at hc
    rcases hc with rfl | rfl | rfl | rfl | rfl <;> rfl
  | single halone =>
    rw [symbol_single halone]
    exact .inl (scans_single halone hnumber hname)

theorem marks_numeric (s : Text) : (numeric s).1.kind.marks = [] := by
  unfold numeric
  dsimp only
  split
  · rfl
  · split <;> rfl

/-- Behind a token the lexer is as at the start of a text. -/
theorem reports_next? {s rest : Text} {t : Token} (h : next? s = some (t, rest)) :
    Reports t rest := by
  cases next?_cases h with
  | cdc ht hs =>
    subst ht
    exact .inl (.of_run rfl _)
  | numeric hstarts h =>
    have hscans := scans_numeric hstarts
    have hmarks := marks_numeric s
    rw [h] at hscans hmarks
    exact .inl (hmarks ▸ hscans)
  | identLike _ _ h =>
    have hreports := reports_identLike s
    rwa [h] at hreports
  | symbol hs hnumber hname hsymbol =>
    subst hs
    have hreports := reports_symbol hnumber hname
    rwa [hsymbol] at hreports

end Lexer

/-! ## Runs of tokens -/

namespace Token

/-- The text of the tokens, in front of `rest`, is read as these tokens. -/
def Lexes (ts : List Token) (rest : Text) : Prop := tokenize (join ts ++ rest) = ts ++ tokenize rest

theorem join_append (ts us : List Token) : join (ts ++ us) = join ts ++ join us := by
  simp [join]

@[simp] theorem join_cons (t : Token) (ts : List Token) : join (t :: ts) = t.source ++ join ts :=
  rfl

theorem join_singleton (t : Token) : join [t] = t.source := by simp [join]

theorem tokenize_of_next? {s rest : Text} {t : Token} (h : next? s = some (t, rest)) :
    tokenize s = t :: tokenize rest := by
  rw [tokenize]
  split
  · next hn => rw [hn] at h; cases h
  · next t' rest' hn =>
    rw [hn] at h
    cases h
    rfl

theorem lexes_nil (rest : Text) : Lexes [] rest := rfl

theorem Lexes.append {ts us : List Token} {rest : Text} (h : Lexes ts (join us ++ rest))
    (h' : Lexes us rest) :
    Lexes (ts ++ us) rest := by
  rw [Lexes, join_append, List.append_assoc, h, h', List.append_assoc]

/-- The first token is read off the text, and the others are read off the rest. -/
theorem lexes_cons_iff {t : Token} {ts : List Token} {rest : Text} :
    Lexes (t :: ts) rest ↔
      next? (t.source ++ (join ts ++ rest)) = some (t, join ts ++ rest) ∧ Lexes ts rest := by
  refine ⟨fun h => ?_, fun ⟨hn, h⟩ => ?_⟩
  · rw [Lexes, join_cons, List.append_assoc, List.cons_append] at h
    cases hn : next? (t.source ++ (join ts ++ rest)) with
    | none =>
      rw [tokenize] at h
      split at h
      · cases h
      · next hn' => rw [hn] at hn'; cases hn'
    | some p =>
      obtain ⟨t', rest'⟩ := p
      rw [tokenize_of_next? hn] at h
      obtain ⟨rfl, hts⟩ := List.cons.inj h
      have hrest : rest' = join ts ++ rest := List.append_cancel_left (next?_append hn)
      subst hrest
      exact ⟨rfl, hts⟩
  · rw [Lexes, join_cons, List.append_assoc, tokenize_of_next? hn, h, List.cons_append]

theorem tokenize_nil : tokenize [] = [] := by
  rw [tokenize]
  split
  · rfl
  · next hn => cases hn

theorem lexes_tokenize (s : Text) : Lexes (tokenize s) [] := by
  rw [Lexes, List.append_nil, join_tokenize, tokenize_nil, List.append_nil]

theorem Lexes.tokenize_join {ts : List Token} (h : Lexes ts []) : tokenize (join ts) = ts := by
  rw [Lexes, tokenize_nil, List.append_nil, List.append_nil] at h
  exact h

/-- A run of tokens is cut at any of them. -/
theorem lexes_append_iff {ts us : List Token} {rest : Text} :
    Lexes (ts ++ us) rest ↔ Lexes ts (join us ++ rest) ∧ Lexes us rest := by
  refine ⟨fun h => ?_, fun ⟨h, h'⟩ => h.append h'⟩
  induction ts with
  | nil => exact ⟨lexes_nil _, h⟩
  | cons t ts ih =>
    obtain ⟨hn, hts⟩ := lexes_cons_iff.mp h
    obtain ⟨h₁, h₂⟩ := ih hts
    have hn := join_append ts us ▸ hn
    rw [List.append_assoc] at hn
    exact ⟨lexes_cons_iff.mpr ⟨hn, h₁⟩, h₂⟩

/-- The last of a run of tokens is read off the text behind the others. -/
theorem lexes_append_singleton_iff {ts : List Token} {t : Token} {rest : Text} :
    Lexes (ts ++ [t]) rest ↔
      Lexes ts (t.source ++ rest) ∧ next? (t.source ++ rest) = some (t, rest) := by
  rw [lexes_append_iff, lexes_cons_iff, join_singleton]
  exact ⟨fun ⟨hts, hnext, _⟩ => ⟨hts, hnext⟩, fun ⟨hts, hnext⟩ => ⟨hts, hnext, lexes_nil rest⟩⟩

theorem Lexes.spelled {ts : List Token} {rest : Text} (h : Lexes ts rest) :
    ∀ t ∈ ts, t.Spelled := by
  intro t ht
  have := spelled_tokenize (join ts ++ rest)
  rw [h] at this
  exact this t (List.mem_append_left _ ht)

end Token

namespace Lexer

open Token

/-- The marks in a run of tokens are those of the tokens, unless the text ends in a url that is cut
off. -/
theorem marks_join {ts : List Token} {rest : Text} (h : Lexes ts rest) :
    Scans fresh (join ts) (ts.flatMap (·.kind.marks)) fresh rest ∨
      rest = [] ∧ ∃ us u, ts = us ++ [u] ∧ u.kind.marks = [.opening .round, .closing .round] ∧
        Scans fresh (join ts) (us.flatMap (·.kind.marks) ++ [.opening .round]) fresh rest := by
  induction ts with
  | nil => exact .inl (.refl _ _)
  | cons t ts ih =>
    obtain ⟨hn, hts⟩ := lexes_cons_iff.mp h
    rcases reports_next? hn with ht | ⟨hend, hkind, ht⟩
    · rcases ih hts with ih | ⟨rfl, us, u, rfl, hu, ih⟩
      · exact .inl (ht.append ih)
      · refine .inr ⟨rfl, t :: us, u, rfl, hu, ?_⟩
        rw [List.flatMap_cons, List.append_assoc]
        exact ht.append ih
    · obtain ⟨hjoin, rfl⟩ := List.append_eq_nil_iff.mp hend
      have hnil : ts = [] := by
        rcases ts with _ | ⟨u, us⟩
        · rfl
        · have hu := (lexes_cons_iff.mp hts).1
          rw [← List.append_assoc, ← join_cons, hjoin] at hu
          cases hu
      subst hnil
      refine .inr ⟨rfl, [], t, rfl, ?_, ?_⟩
      · rcases hkind with h | h <;> rw [h] <;> rfl
      · simpa [join] using ht

/-- The marks in a run of tokens in front of some text are those of the tokens. -/
theorem marks_of_lexes {ts : List Token} {r x y : Text} (h : Lexes ts (c :: r))
    (hx : c :: r = x ++ y) :
    marks fresh (join ts ++ x) = ts.flatMap (·.kind.marks) ++ marks fresh x := by
  rcases marks_join h with hscans | ⟨hnil, -⟩
  · exact hscans.marks_eq x y hx
  · cases hnil

/-- A mark in the front of a token is one of the token. -/
theorem Reports.mem_marks {t : Token} {rest a b : Text} {m : Mark} (h : Reports t rest)
    (hsource : t.source = a ++ b) (hm : m ∈ marks fresh a) (hround : m ≠ .opening .round) :
    m ∈ t.kind.marks := by
  have hmem : m ∈ marks fresh t.source := by
    rw [hsource, marks, run_append]
    exact List.mem_append_left _ hm
  rcases h with ht | ⟨rfl, -, ht⟩
  · have := ht.marks_eq [] rest rfl
    rw [List.append_nil] at this
    rw [this] at hmem
    simpa [marks, run] using hmem
  · have := ht.marks_eq [] [] rfl
    rw [List.append_nil] at this
    rw [this] at hmem
    exact absurd (by simpa [marks, run] using hmem) hround

/-- Where the lexer reports a mark at a character that stands alone in the tokens with this mark, a
token starts. -/
theorem exists_lexes {c : Char} {m : Mark}
    (hm : ∀ t : Token, t.Spelled → m ∈ t.kind.marks → t.source = [c]) (hround : m ≠ .opening .round)
    (w r : Text) (h : marks fresh (w ++ [c]) = marks fresh w ++ [m]) :
    ∃ ts, join ts = w ∧ Lexes ts (c :: r) := by
  induction hlen : w.length using Nat.strong_induction_on generalizing w with
  | _ n ih =>
    cases hn : next? (w ++ c :: r) with
    | none => exact absurd (next?_eq_none hn) (by simp)
    | some p =>
      obtain ⟨t, rest⟩ := p
      have hreports := reports_next? hn
      rcases List.append_eq_append_iff.mp (next?_append hn) with ⟨w', rfl, rfl⟩ | ⟨z, hz, hrest⟩
      · -- The token ends in front of the character.
        have hscans : Scans fresh t.source t.kind.marks fresh (w' ++ c :: r) := by
          rcases hreports with ht | ⟨hend, -, -⟩
          · exact ht
          · simp at hend
        have hw := hscans.marks_eq w' (c :: r) rfl
        have hwc := hscans.marks_eq (w' ++ [c]) r (by simp)
        rw [← List.append_assoc, h, hw, List.append_assoc] at hwc
        have hpos := List.length_pos_iff.mpr (next?_source_ne_nil hn)
        rw [List.length_append] at hlen
        obtain ⟨ts, rfl, hts⟩ := ih w'.length (by omega) w' (List.append_cancel_left hwc).symm rfl
        refine ⟨t :: ts, rfl, lexes_cons_iff.mpr ⟨?_, hts⟩⟩
        rwa [List.append_assoc] at hn
      · rcases z with _ | ⟨d, z⟩
        · rw [List.append_nil] at hz
          subst hz
          rw [List.nil_append] at hrest
          subst hrest
          exact ⟨[t], by simp [join], lexes_cons_iff.mpr ⟨hn, lexes_nil _⟩⟩
        · -- The character is in the token, which is one with this mark.
          obtain ⟨rfl, -⟩ := List.cons.inj hrest
          have hkind : m ∈ t.kind.marks := by
            refine hreports.mem_marks (a := w ++ [c]) (b := z) (by simpa using hz) ?_ hround
            rw [h]
            simp
          have hsource := hm t (spelled_next? hn) hkind
          rw [hz] at hsource
          have hw : w = [] := by
            have := congrArg List.length hsource
            simp only [List.length_append, List.length_cons, List.length_nil] at this
            exact List.length_eq_zero_iff.mp (by omega)
          subst hw
          exact ⟨[], rfl, lexes_nil _⟩

/-- A token that ends an item is one character, and no other token has its mark. -/
theorem exists_mark {t : Token} (ht : t.Spelled)
    (hk : t.kind = .semicolon ∨ t.kind = .closing .curly) :
    ∃ c m, t.source = [c] ∧ marks fresh [c] = [m] ∧ m ≠ .opening .round ∧
      ∀ u : Token, u.Spelled → m ∈ u.kind.marks → u.source = [c] := by
  obtain ⟨kind, source⟩ := t
  rcases hk with hk | hk
  · refine ⟨';', .semicolon, ?_, rfl, by simp, fun u hu hmem => ?_⟩
    · simpa [Spelled, show kind = .semicolon from hk] using ht
    · obtain ⟨kind, source⟩ := u
      cases kind <;> simp [Kind.marks, Spelled] at hmem hu
      exact hu
  · refine ⟨'}', .closing .curly, ?_, rfl, by simp, fun u hu hmem => ?_⟩
    · simpa [Spelled, show kind = .closing .curly from hk, Bracket.closer] using ht
    · obtain ⟨kind, source⟩ := u
      cases kind <;> simp [Kind.marks, Spelled] at hmem hu
      rw [hu, ← hmem]
      rfl

/-- A text through which the lexer goes as through tokens is tokens as well, in front of a token
that ends an item. -/
theorem exists_lexes_ending {t : Token} (ht : t.Spelled)
    (hk : t.kind = .semicolon ∨ t.kind = .closing .curly) {ts : List Token} {w rest : Text}
    (hts : Lexes ts (t.source ++ rest)) (hw : run fresh w = run fresh (join ts)) :
    ∃ us, join us = w ∧ Lexes us (t.source ++ rest) ∧
      us.flatMap (·.kind.marks) = ts.flatMap (·.kind.marks) := by
  obtain ⟨c, m, hsource, hm, hround, honly⟩ := exists_mark ht hk
  rw [hsource, List.singleton_append] at hts ⊢
  have hscans (us : List Token) (hus : Lexes us (c :: rest)) :
      marks fresh (join us) = us.flatMap (·.kind.marks) ∧
        marks fresh (join us ++ [c]) = us.flatMap (·.kind.marks) ++ [m] := by
    have hjoin := marks_of_lexes hus (x := []) rfl
    have hlast := marks_of_lexes hus (x := [c]) (y := rest) rfl
    rw [List.append_nil] at hjoin
    rw [hm] at hlast
    exact ⟨by simpa [marks, run] using hjoin, hlast⟩
  obtain ⟨hjoin, hlast⟩ := hscans ts hts
  have hwc : marks fresh (w ++ [c]) = marks fresh w ++ [m] := by
    have hmarks : marks fresh (w ++ [c]) = marks fresh (join ts ++ [c]) := by
      rw [marks, marks, run_append, run_append, hw]
    rw [hmarks, hlast, marks, hw, ← hjoin]
    rfl
  obtain ⟨us, rfl, hus⟩ := exists_lexes honly hround w rest hwc
  refine ⟨us, rfl, hus, ?_⟩
  rw [← (hscans us hus).1, ← hjoin, marks, marks, hw]

end Lexer

end Relength
