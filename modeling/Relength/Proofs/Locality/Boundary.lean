import Relength.Proofs.Locality.Closed
import Relength.Proofs.Numeral

/-!
# Where one token ends and a number starts

A token that stands in front of a number may take some of a number that is put in the place of the
first: the digits of a name or of a number go on, and a `+` or a point by itself starts a number.
`Token.absorbs` tells from the token and the first characters behind it.

* `Token.absorbs_eq_false`: no token absorbs what is behind it in the text that it was read from;
* `Token.stays_of_not_absorbs`: a token in front of a number stays in front of another number that
  it does not absorb.
-/

namespace Relength.Token

variable {c : Char} {r r' : Text} {t : Token}

/-- The token takes some of the text behind it, if that starts with a number or goes on with a name
or a number. -/
def absorbs (t : Token) (r : Text) : Bool :=
  match t.kind with
  | .ident _ | .atKeyword _ | .hash _ | .dimension _ => r.head?.any isNameChar
  | .number =>
    r.head?.any (fun c => c.isDigit || c == '%') || (isWhole t.source && startsFraction r)
  | .delim c =>
    if c == '-' || c == '#' then r.head?.any isNameChar
    else (c == '+' || c == '.') && r.head?.any Char.isDigit
  | _ => false

/-! ## The first characters of a number -/

/-- A number may start with the character. -/
def isLead (c : Char) : Bool := c.isDigit || c == '+' || c == '-' || c == '.'

theorem ne_of_isLead {d : Char} (hc : isLead c = true) (hd : isLead d = false) : c ≠ d := by
  rintro rfl
  rw [hc] at hd
  cases hd

theorem isSpace_of_isLead (hc : isLead c = true) : isSpace c = false := by
  have hne (d : Char) (hd : isLead d = false) : c ≠ d := ne_of_isLead hc hd
  simp [isSpace, isNewline, hne ' ' rfl, hne '\t' rfl, hne '\n' rfl, hne '\r' rfl, hne '\x0c' rfl]

theorem isNewline_of_isLead (hc : isLead c = true) : isNewline c = false := by
  have hspace := isSpace_of_isLead hc
  simp only [isSpace, Bool.or_eq_false_iff] at hspace
  exact hspace.2

theorem exists_lead (h : startsNumber r = true) : ∃ c s, r = c :: s ∧ isLead c = true := by
  rcases r with _ | ⟨c, s⟩
  · cases h
  · refine ⟨c, s, rfl, ?_⟩
    by_cases hsign : (c == '+' || c == '-') = true
    · simp only [Bool.or_eq_true, beq_iff_eq] at hsign
      rcases hsign with rfl | rfl <;> rfl
    · by_cases hpoint : c = '.'
      · subst hpoint
        rfl
      · simp [startsNumber, hsign, startsUnsigned, hpoint] at h
        simp [isLead, h]

theorem ne_of_isDigit {d : Char} (hc : c.isDigit = true) (hd : d.isDigit = false) : c ≠ d := by
  rintro rfl
  rw [hc] at hd
  cases hd

theorem isAlpha_of_isDigit (hc : c.isDigit = true) : c.isAlpha = false := by
  simp only [Char.isAlpha, Char.isUpper, Char.isLower, Char.isDigit] at *
  grind

theorem isLead_of_isAlpha (hc : c.isAlpha = true) : isLead c = false := by
  rw [Bool.eq_false_iff]
  intro hlead
  simp only [isLead, Bool.or_eq_true, beq_iff_eq, or_assoc] at hlead
  rcases hlead with hdigit | rfl | rfl | rfl
  · rw [isAlpha_of_isDigit hdigit] at hc
    cases hc
  all_goals cases hc

theorem isNameStart_of_isDigit (hc : c.isDigit = true) : isNameStart c = false := by
  have halpha := isAlpha_of_isDigit hc
  have hsmall : c.toNat < 128 := by
    simp only [Char.isDigit, Bool.and_eq_true, decide_eq_true_eq] at hc
    have hle : c.toNat ≤ '9'.toNat := UInt32.le_iff_toNat_le.mp hc.2
    exact Nat.lt_of_le_of_lt hle (by decide)
  have hunderscore : c ≠ '_' := ne_of_isDigit hc rfl
  have hnul : c ≠ '\x00' := ne_of_isDigit hc rfl
  simp only [isNameStart, halpha, Bool.false_or, Bool.or_eq_false_iff, beq_eq_false_iff_ne,
    decide_eq_false_iff_not]
  exact ⟨⟨hunderscore, hnul⟩, by omega⟩

/-- A digit, or a minus in front of one. -/
def StartsSigned (r : Text) : Prop :=
  ∃ c s, r = c :: s ∧ (c.isDigit = true ∨ c = '-' ∧ s.head?.any Char.isDigit = true)

theorem startsSigned_append {s : Text} (h : IsSigned s) (r : Text) : StartsSigned (s ++ r) := by
  rcases h with h | ⟨u, h, rfl⟩
  · obtain ⟨c, t, rfl, hc⟩ := h.head
    exact ⟨c, t ++ r, rfl, .inl hc⟩
  · obtain ⟨c, t, rfl, hc⟩ := h.head
    exact ⟨'-', c :: t ++ r, rfl, .inr ⟨rfl, hc⟩⟩

namespace StartsSigned

theorem lead (h : StartsSigned r) : ∃ c s, r = c :: s ∧ isLead c = true := by
  obtain ⟨c, s, rfl, hc | ⟨rfl, -⟩⟩ := h
  · exact ⟨c, s, rfl, by simp [isLead, hc]⟩
  · exact ⟨'-', s, rfl, rfl⟩

theorem any_isNameChar (h : StartsSigned r) : r.head?.any isNameChar = true := by
  obtain ⟨c, s, rfl, hc | ⟨rfl, -⟩⟩ := h
  · simp [isNameChar, hc]
  · rfl

theorem startsName (h : StartsSigned r) : Token.startsName r = false := by
  obtain ⟨c, s, rfl, hc | ⟨rfl, hs⟩⟩ := h
  · have hstart := isNameStart_of_isDigit hc
    have hminus : c ≠ '-' := ne_of_isDigit hc rfl
    have hb : c ≠ '\\' := ne_of_isDigit hc rfl
    simp [Token.startsName, hstart, hminus]
  · cases s with
    | nil => rfl
    | cons d s =>
      have hd : d.isDigit = true := hs
      have hstart := isNameStart_of_isDigit hd
      have hminus : d ≠ '-' := ne_of_isDigit hd rfl
      have hb : d ≠ '\\' := ne_of_isDigit hd rfl
      simp [startsName_minus, hstart, hminus, hb]

/-- A text that starts so and not with a digit starts with a minus. -/
theorem minus (h : StartsSigned r) (hdigit : r.head?.any Char.isDigit = false) :
    ∃ s, r = '-' :: s := by
  obtain ⟨c, s, rfl, hc | ⟨rfl, -⟩⟩ := h
  · rw [List.head?_cons, Option.any_some, hc] at hdigit
    cases hdigit
  · exact ⟨s, rfl⟩

end StartsSigned

/-! ## Tokens of names and numbers -/

theorem isFinal_of_isDigit (hc : c.isDigit = true) : isFinal c = true := by
  have hne (d : Char) (hd : d.isDigit = false) : c ≠ d := ne_of_isDigit hc hd
  simp [isFinal, isSpace, isNewline, hne '-' rfl, hne '+' rfl, hne '.' rfl, hne '\\' rfl,
    hne 'e' rfl, hne 'E' rfl, hne '\r' rfl, hne '*' rfl, hne '!' rfl, hne ' ' rfl, hne '\t' rfl,
    hne '\n' rfl, hne '\x0c' rfl]

theorem endsFinal_number {s : Text} (hs : startsNumber (s ++ r) = true)
    (hspan : numberSpan (s ++ r) = (s, r)) : EndsFinal s := by
  obtain ⟨a, d, h, hd⟩ := Lexer.endsInDigit_numberSpan hs
  rw [hspan] at h
  exact ⟨a, d, h, isFinal_of_isDigit hd⟩

theorem stays_percentage {number : Text} (hs : startsNumber (number ++ '%' :: r) = true)
    (hspan : numberSpan (number ++ '%' :: r) = (number, '%' :: r)) (r' : Text) :
    startsNumber (number ++ '%' :: r') = true ∧
      numeric (number ++ '%' :: r') = (⟨.percentage, number ++ ['%']⟩, r') := by
  have hend : endsNumber '%' = true := rfl
  rw [startsNumber_end hend] at hs ⊢
  rw [numberSpan_end hend, Prod.mk.injEq] at hspan
  have hspan' : numberSpan (number ++ '%' :: r') = (number, ['%'] ++ r') := by
    rw [numberSpan_end hend, hspan.1, List.append_left_eq_self.mp hspan.2]
    rfl
  refine ⟨hs, ?_⟩
  rw [numeric_percent (congrArg Prod.snd hspan'), hspan']

theorem stays_numeric (hs : startsNumber (t.source ++ r) = true)
    (h : numeric (t.source ++ r) = (t, r)) (hr' : StartsSigned r') (hnot : t.absorbs r' = false) :
    EndsFinal t.source ∧ numeric (t.source ++ r') = (t, r') := by
  rcases hspan : numberSpan (t.source ++ r) with ⟨number, rest⟩
  cases numeric_cases h with
  | percentage ht hr =>
    rw [hspan] at ht hr
    subst ht
    simp only [List.append_assoc, List.singleton_append] at hspan hs hr ⊢
    subst hr
    exact ⟨⟨number, '%', rfl, rfl⟩, (stays_percentage hs hspan r').2⟩
  | dimension _ ht =>
    rw [ht, absorbs, hr'.any_isNameChar] at hnot
    cases hnot
  | number _ _ ht hr =>
    rw [hspan] at ht hr
    obtain rfl : rest = r := hr
    subst ht
    refine ⟨endsFinal_number hs hspan, ?_⟩
    -- A digit would be absorbed.
    have hdigit : r'.head?.any Char.isDigit = false := by
      obtain ⟨c, s, rfl, hc⟩ := hr'
      simp only [absorbs, Bool.or_eq_false_iff, List.head?_cons, Option.any_some] at hnot ⊢
      exact hnot.1.1
    obtain ⟨s, rfl⟩ := hr'.minus hdigit
    have hne : number ≠ [] := by
      have := numberSpan_ne_nil hs
      rwa [hspan] at this
    have hspan' : numberSpan (number ++ '-' :: s) = (number, '-' :: s) :=
      numberSpan_quits (numberSpan_self hspan) hne rfl (Bool.and_false _)
    rw [numeric_eq (by rw [hspan']; rintro u hu; cases hu), hspan', hr'.startsName]
    rfl

/-- A url that has ended. -/
theorem url_closed {X w : Text} (hX : X = w ++ c :: r) (hc : isNewline c = false)
    (h : (urlBody (X.dropWhile isSpace)).2 = c :: r) :
    EndsClosed w ∧ ∀ r', (w ++ r').takeWhile isSpace = X.takeWhile isSpace ∧
      urlBody ((w ++ r').dropWhile isSpace) = ((urlBody (X.dropWhile isSpace)).1, r') := by
  subst hX
  obtain ⟨v, -, hv⟩ := exists_left (y := []) (leaves_urlBody _) h
  have hsplit : (w ++ c :: r).takeWhile isSpace ++ (v ++ c :: r) = w ++ c :: r := by
    rw [← hv, List.takeWhile_append_dropWhile]
  rw [hv] at h ⊢
  obtain ⟨hends, hnext⟩ := closes_urlBody v c r hc h
  have hspaces : ∀ d ∈ (w ++ c :: r).takeWhile isSpace, isSpace d = true :=
    fun d hd => List.mem_takeWhile_imp hd
  have hfirst := List.head?_dropWhile_not isSpace (w ++ c :: r)
  rw [hv] at hfirst
  generalize (w ++ c :: r).takeWhile isSpace = spaces at hsplit hspaces ⊢
  obtain rfl : spaces ++ v = w := by
    rw [← List.append_assoc] at hsplit
    exact List.append_cancel_right hsplit
  refine ⟨hends.append spaces, fun r' => ?_⟩
  have hhead : (v ++ r').head?.any isSpace = false := by
    obtain ⟨a, d, rfl, -⟩ := hends
    cases a <;> simpa using hfirst
  have htake : (v ++ r').takeWhile isSpace = [] ∧ (v ++ r').dropWhile isSpace = v ++ r' := by
    cases hw : v ++ r' with
    | nil => exact ⟨rfl, rfl⟩
    | cons d u =>
      rw [hw] at hhead
      have hd : isSpace d = false := hhead
      simp [hd]
  rw [List.append_assoc, List.takeWhile_append_of_pos hspaces, List.dropWhile_append_of_pos hspaces,
    htake.1, htake.2, hnext, List.append_nil]
  exact ⟨rfl, rfl⟩

/-- A bracket behind a name stays behind it in front of another text. -/
theorem name_open {w v : Text} (h : (name (w ++ r)).2 = ['('] ++ (v ++ r)) (r' : Text) :
    (name (w ++ r)).1.source ++ ['('] ++ v = w ∧
      name (w ++ r') = ((name (w ++ r)).1, ['('] ++ (v ++ r')) := by
  have hw : (name (w ++ r)).1.source ++ ['('] ++ v = w := by
    have happend := name_append (w ++ r)
    rw [h, ← List.append_assoc, ← List.append_assoc] at happend
    exact (List.append_left_inj r).mp happend
  refine ⟨hw, ?_⟩
  have hstop : Alike ('(' :: (v ++ r)) ('(' :: (v ++ r')) := .of_stop rfl _ _
  have hname := local_name (name (w ++ r)).1.source [] _ _ hstop
  have hfront (s : Text) : (name (w ++ r)).1.source ++ '(' :: (v ++ s) = w ++ s := by
    simpa using congrArg (· ++ s) hw
  rw [hfront, hfront] at hname
  exact hname h

theorem stays_identLike {w : Text} (hr : ∃ c s, r = c :: s ∧ isLead c = true)
    (h : identLike (w ++ r) = (t, r)) (hr' : StartsSigned r') (hnot : t.absorbs r' = false) :
    EndsFinal w ∧ identLike (w ++ r') = (t, r') := by
  obtain ⟨c, u, rfl, hc⟩ := hr
  cases identLike_cases h with
  | ident _ ht =>
    rw [ht, absorbs, hr'.any_isNameChar] at hnot
    cases hnot
  | function hopen hurl ht =>
    obtain ⟨hw, hname⟩ := name_open (v := []) hopen r'
    -- The name is not `url`, as no quote comes next.
    have hquote : startsQuote ((c :: u).dropWhile isSpace) = false := by
      have hdouble : c ≠ '"' := ne_of_isLead hc rfl
      have hsingle : c ≠ '\'' := ne_of_isLead hc rfl
      simp [isSpace_of_isLead hc, startsQuote, hdouble, hsingle]
    rw [opensUrlBody, hquote, Bool.not_false, Bool.and_true] at hurl
    rw [List.append_nil] at hw
    refine ⟨⟨_, '(', hw.symm, rfl⟩, ?_⟩
    rw [identLike_open (congrArg Prod.snd hname), hname, hurl, ht]
    rfl
  | @url x hopen hurl _ hbody =>
    obtain ⟨htoken, hleft⟩ := Prod.mk.inj hbody
    obtain ⟨v, -, rfl⟩ := exists_left (y := []) (leaves_urlSpace x) hleft
    obtain ⟨hw, hname⟩ := name_open hopen r'
    obtain ⟨hends, hnext⟩ := url_closed rfl (isNewline_of_isLead hc) hleft
    obtain ⟨hspaces, hnext⟩ := hnext r'
    rw [opensUrlBody, (hends.alike (c :: u) r').quote] at hurl
    refine ⟨hw ▸ (hends.append _).endsFinal, ?_⟩
    rw [identLike_open (congrArg Prod.snd hname), hname, if_pos hurl, hspaces, hnext, ← htoken]
    rfl

/-! ## Tokens of other characters -/

section Symbol

variable (hr : ∃ d s, r = d :: s ∧ isLead d = true) (hr' : StartsSigned r')

include hr hr'

/-- No scanner looks for a number behind a character that is no minus and in no number. -/
theorem alike_in_front (hminus : c ≠ '-') (hlower : c ≠ 'e') (hupper : c ≠ 'E')
    (hunsigned : startsUnsigned (c :: r) = startsUnsigned (c :: r'))
    (hnumber : startsNumber (c :: r) = startsNumber (c :: r'))
    (hname : startsName (c :: r) = startsName (c :: r'))
    (hdigits : (digitSpan (signSpan (c :: r)).2).1.isEmpty =
      (digitSpan (signSpan (c :: r')).2).1.isEmpty) : Alike (c :: r) (c :: r') := by
  have hexponent : (c == 'e' || c == 'E') = false := by simp [hlower, hupper]
  have hquote {s : Text} (hs : ∃ d u, s = d :: u ∧ isLead d = true) :
      startsQuote (s.dropWhile isSpace) = false := by
    obtain ⟨d, u, rfl, hd⟩ := hs
    have hdouble : d ≠ '"' := ne_of_isLead hd rfl
    have hsingle : d ≠ '\'' := ne_of_isLead hd rfl
    simp [isSpace_of_isLead hd, startsQuote, hdouble, hsingle]
  refine ⟨.inl rfl, hunsigned, hnumber, hname, hdigits, ?_, ?_, ?_⟩
  · rw [isEmpty_exponentSpan, isEmpty_exponentSpan, hexponent]
    rfl
  · rintro p hp ⟨u, hu⟩
    obtain ⟨d, s, rfl, hd⟩ := hr'.lead
    have hsecond (e : Char) (he : isLead e = false) : d ≠ e := ne_of_isLead hd he
    simp only [lookaheads, List.mem_cons, List.not_mem_nil, or_false] at hp
    rcases hp with rfl | rfl | rfl | rfl | rfl | rfl
    · exact absurd (List.cons.inj (List.cons.inj hu).2).1.symm (hsecond '\n' rfl)
    · exact absurd (List.cons.inj (List.cons.inj hu).2).1.symm (hsecond '/' rfl)
    · -- A minus at the start of the number has a digit behind it.
      obtain ⟨e, v, he, hdigit | ⟨rfl, hdigit⟩⟩ := hr'
      · obtain ⟨rfl, rfl⟩ := List.cons.inj he
        exact absurd (List.cons.inj (List.cons.inj hu).2).1.symm (ne_of_isDigit hdigit rfl)
      · obtain ⟨rfl, rfl⟩ := List.cons.inj he
        have htail := (List.cons.inj (List.cons.inj hu).2).2
        rw [← htail] at hdigit
        cases hdigit
    all_goals exact absurd (List.cons.inj hu).1.symm hminus
  · by_cases hc : isSpace c = true
    · simp only [List.dropWhile_cons, if_pos hc, hquote hr, hquote hr'.lead]
    · simp [hc, startsQuote]

/-- White space ends in front of a number. -/
theorem stays_space {w : Text} (hspace : isSpace c = true) (h : symbol c (w ++ r) = (t, r)) :
    Alike (c :: w ++ r) (c :: w ++ r') ∧ symbol c (w ++ r') = (t, r') := by
  have hdrop {s : Text} (hs : ∃ d u, s = d :: u ∧ isLead d = true) :
      s.takeWhile isSpace = [] ∧ s.dropWhile isSpace = s := by
    obtain ⟨d, u, rfl, hd⟩ := hs
    simp [isSpace_of_isLead hd]
  rw [symbol_space hspace] at h
  obtain ⟨rfl, hleft⟩ := Prod.mk.inj h
  have htake : (w ++ r).takeWhile isSpace = w := by
    have happend := List.takeWhile_append_dropWhile (p := isSpace) (l := w ++ r)
    rw [hleft] at happend
    exact List.append_cancel_right happend
  have hspaces : ∀ d ∈ c :: w, isSpace d = true := by
    rw [← htake]
    intro d hd
    rcases List.mem_cons.mp hd with rfl | hd
    · exact hspace
    · exact List.mem_takeWhile_imp hd
  constructor
  · obtain ⟨a, d, hd⟩ : ∃ a d, c :: w = a ++ [d] :=
      ⟨_, _, (List.dropLast_concat_getLast (List.cons_ne_nil c w)).symm⟩
    have hlast := hspaces d (by simp [hd])
    rw [hd, List.append_assoc, List.append_assoc]
    refine .append a ?_
    simp only [isSpace, isNewline, Bool.or_eq_true, beq_iff_eq, or_assoc] at hlast
    rcases hlast with rfl | rfl | rfl | rfl | rfl <;>
      exact alike_in_front hr hr' (by decide) (by decide) (by decide) rfl rfl rfl rfl
  · have hw : ∀ d ∈ w, isSpace d = true := fun d hd => hspaces d (List.mem_cons_of_mem c hd)
    rw [symbol_space hspace, htake, List.takeWhile_append_of_pos hw,
      List.dropWhile_append_of_pos hw, (hdrop hr'.lead).1, (hdrop hr'.lead).2, List.append_nil]

end Symbol

/-- A character by itself does not start anything with the number behind it. -/
theorem alike_single (hr : startsNumber r = true) (hnumber : startsNumber (c :: r) = false)
    (hname : startsName (c :: r) = false) (hr' : StartsSigned r')
    (hnot : absorbs ⟨.delim c, [c]⟩ r' = false) : Alike (c :: r) (c :: r') := by
  have hlead := exists_lead hr
  have hminus : c ≠ '-' := by
    rintro rfl
    simp [absorbs, hr'.any_isNameChar] at hnot
  have hback : c ≠ '\\' := by
    rintro rfl
    obtain ⟨d, s, rfl, hd⟩ := hlead
    simp [startsName, startsNewline, isNewline_of_isLead hd] at hname
  have hstart : isNameStart c = false := by
    simpa [startsName, hminus, hback] using hname
  have hletter (d : Char) (hd : isNameStart d = true) : c ≠ d := by
    rintro rfl
    rw [hstart] at hd
    cases hd
  have hname' : startsName (c :: r') = false := by simp [startsName, hminus, hstart]
  -- A number does not start at the character, in front of either text.
  have hdigit' : c = '+' ∨ c = '.' → r'.head?.any Char.isDigit = false := by
    rintro (rfl | rfl) <;> simpa [absorbs] using hnot
  by_cases hplus : c = '+'
  · subst hplus
    have hunsigned : startsUnsigned r = false := hnumber
    have hdigit : r.head?.any Char.isDigit = false := by
      obtain ⟨d, s, rfl, -⟩ := hlead
      by_cases hd : d.isDigit = true
      · have hpoint : d ≠ '.' := ne_of_isDigit hd rfl
        simp [startsUnsigned, hpoint, hd] at hunsigned
      · simpa using hd
    obtain ⟨s, rfl⟩ := hr'.minus (hdigit' (.inl rfl))
    refine alike_in_front hlead hr' hminus (by decide) (by decide) rfl hnumber ?_ ?_
    · rw [hname, hname']
    · have hplus : (('+' : Char) == '+' || ('+' : Char) == '-') = true := rfl
      rw [isEmpty_digits, isEmpty_digits, if_pos hplus, if_pos hplus, hdigit]
      rfl
  · have hsign : (c == '+' || c == '-') = false := by simp [hplus, hminus]
    have hunsigned : startsUnsigned (c :: r) = startsUnsigned (c :: r') := by
      by_cases hpoint : c = '.'
      · subst hpoint
        rw [startsUnsigned_point r', hdigit' (.inr rfl)]
        exact hnumber
      · simp [startsUnsigned, hpoint]
    refine alike_in_front hlead hr' hminus (hletter 'e' rfl) (hletter 'E' rfl) hunsigned ?_ ?_ ?_
    · simpa [startsNumber, hsign] using hunsigned
    · rw [hname, hname']
    · rw [isEmpty_digits, isEmpty_digits, hsign]
      rfl

theorem single_cases (c : Char) : isStop c = true ∨ single c = .delim c := by
  unfold single isStop
  repeat' split
  all_goals simp_all

/-- What stands alone does so in front of a number, which none of its pairs goes on with. -/
theorem StandsAlone.of_lead {s : Text} (h : StandsAlone c s)
    (hr : ∃ d u, r = d :: u ∧ isLead d = true) : StandsAlone c r := by
  obtain ⟨d, u, rfl, hlead⟩ := hr
  have hne (e : Char) (he : isLead e = false) (v : Text) : d :: u ≠ e :: v := fun heq =>
    ne_of_isLead hlead he (List.cons.inj heq).1
  exact { h with
    comment := fun _ => hne '*' rfl
    cdo := fun _ v => hne '!' rfl _
    attributeMatch := fun _ => hne '=' rfl }

theorem stays_symbol {w : Text} (hr : startsNumber r = true) (h : symbol c (w ++ r) = (t, r))
    (hnumber : startsNumber (c :: w ++ r) = false) (hname : startsName (c :: w ++ r) = false)
    (hr' : StartsSigned r') (hnot : t.absorbs r' = false) :
    Alike (c :: w ++ r) (c :: w ++ r') ∧ symbol c (w ++ r') = (t, r') := by
  obtain ⟨d, u, hd, hlead⟩ := exists_lead hr
  cases symbol_cases c (w ++ r) with
  | space hspace => exact stays_space ⟨d, u, hd, hlead⟩ hr' hspace h
  | quote hquote =>
    rw [symbol_quote hquote, prepend, Prod.mk.injEq, hd] at h
    obtain ⟨hends, hnext⟩ := closes_stringBody hquote w d u (isNewline_of_isLead hlead) h.2
    refine ⟨(hends.cons c).alike r r', ?_⟩
    rw [symbol_quote hquote, prepend, hnext, h.1]
  | atSign hc =>
    subst hc
    rw [symbol_at] at h
    split at h
    · rw [← (Prod.mk.inj h).1, absorbs, hr'.any_isNameChar] at hnot
      cases hnot
    · obtain ⟨rfl, hw⟩ := Prod.mk.inj h
      obtain rfl := List.append_left_eq_self.mp hw
      refine ⟨.of_final rfl r r', ?_⟩
      rw [List.nil_append, symbol_at, hr'.startsName, if_neg Bool.false_ne_true]
  | hashSign hc =>
    subst hc
    rw [symbol_hash] at h
    split at h <;>
      · rw [← (Prod.mk.inj h).1] at hnot
        simp [absorbs, hr'.any_isNameChar] at hnot
  | @comment hc v hv =>
    subst hc
    rw [hv, symbol_comment, Prod.mk.injEq] at h
    obtain ⟨x, rfl, rfl⟩ := exists_front (y := []) hv (leaves_commentBody v) h.2
    rw [hd] at h
    obtain ⟨hends, hnext⟩ := closes_commentBody x d u (isNewline_of_isLead hlead) h.2
    refine ⟨(hends.append ['/', '*']).alike r r', ?_⟩
    rw [List.append_assoc, symbol_comment, hnext, h.1]
  | @cdo hc v hv =>
    subst hc
    rw [hv] at h
    obtain ⟨rfl, rfl⟩ := Prod.mk.inj h
    obtain rfl := List.append_cancel_right hv
    exact ⟨.of_length (y := ['<', '!', '-', '-']) (by decide) ⟨'<', by simp, rfl⟩ _ r', rfl⟩
  | @attributeMatch hc v hv =>
    rw [hv, symbol_match hc] at h
    obtain ⟨rfl, rfl⟩ := Prod.mk.inj h
    obtain rfl := List.append_cancel_right hv
    exact ⟨EndsFinal.alike ⟨[c], '=', rfl, rfl⟩ _ r', symbol_match hc r'⟩
  | single halone =>
    rw [symbol_single halone] at h
    obtain ⟨rfl, hw⟩ := Prod.mk.inj h
    obtain rfl := List.append_left_eq_self.mp hw
    refine ⟨?_, symbol_single (halone.of_lead hr'.lead)⟩
    rcases single_cases c with hstop | hdelim
    · exact .of_stop hstop r _
    · rw [hdelim] at hnot
      exact alike_single hr hnumber hname hr' hnot

/-! ## All tokens -/

/-- The scanner that reads the first token is the same for two texts that look alike. -/
theorem next?_of_alike {w : Text} (h : Alike (c :: w ++ r) (c :: w ++ r'))
    (hcdc : ∀ u, c :: w ++ r ≠ ['-', '-', '>'] ++ u) :
    next? (c :: w ++ r') =
      some (if startsNumber (c :: w ++ r) then numeric (c :: w ++ r')
        else if startsName (c :: w ++ r) then identLike (c :: w ++ r')
        else symbol c (w ++ r')) := by
  have hcdc' : ∀ u, c :: w ++ r' ≠ ['-', '-', '>'] ++ u :=
    h.not_front (w := []) (.inr (by simp [lookaheads])) hcdc
  rw [h.number, h.name, List.cons_append, next?_cons]
  rintro rfl u hu
  exact hcdc' u (congrArg _ hu)

/-- A token in front of a number stays in front of another number that it does not absorb, and in
front of the token the two texts look alike. -/
theorem stays_of_not_absorbs (h : next? (t.source ++ r) = some (t, r)) (hr : startsNumber r = true)
    (hr' : StartsSigned r') (hnot : t.absorbs r' = false) :
    next? (t.source ++ r') = some (t, r') ∧ Alike (t.source ++ r) (t.source ++ r') := by
  rcases hw : t.source with _ | ⟨c, w⟩
  · exact absurd hw (next?_source_ne_nil h)
  rw [hw] at h
  by_cases hcdc : ∃ u, c :: w ++ r = ['-', '-', '>'] ++ u
  · obtain ⟨u, hu⟩ := hcdc
    rw [hu] at h
    obtain ⟨rfl, rfl⟩ := Prod.mk.inj (Option.some.inj h)
    obtain ⟨rfl, rfl⟩ := List.cons.inj hw.symm
    exact ⟨rfl, EndsFinal.alike ⟨['-', '-'], '>', rfl, rfl⟩ u r'⟩
  have hcdc := not_exists.mp hcdc
  rw [List.cons_append, next?_cons (by rintro rfl u hu; exact hcdc u (congrArg _ hu))] at h
  have h := Option.some.inj h
  rw [← List.cons_append] at h
  have hscan (halike : Alike (c :: w ++ r) (c :: w ++ r')) := next?_of_alike halike hcdc
  split at h
  · next hnumber =>
    rw [← hw] at h hnumber
    obtain ⟨hends, hnumeric⟩ := stays_numeric hnumber h hr' hnot
    rw [hw] at hends hnumeric hnumber
    have halike := hends.alike r r'
    rw [hscan halike, if_pos hnumber, hnumeric]
    exact ⟨rfl, halike⟩
  next hnumber =>
  split at h
  · next hname =>
    obtain ⟨hends, hident⟩ := stays_identLike (exists_lead hr) h hr' hnot
    have halike := hends.alike r r'
    rw [hscan halike, if_neg hnumber, if_pos hname, hident]
    exact ⟨rfl, halike⟩
  · next hname =>
    obtain ⟨halike, hsymbol⟩ := stays_symbol hr h (by simpa using hnumber) (by simpa using hname)
      hr' hnot
    rw [hscan halike, if_neg hnumber, if_neg hname, hsymbol]
    exact ⟨rfl, halike⟩

/-! ## What is behind a token is not absorbed -/

theorem digit_of_digitSpan (s : Text) : (digitSpan s).2.head?.any Char.isDigit = false :=
  (digitSpan_eq_iff.mp (Prod.mk.eta (p := digitSpan s)).symm).2.2

theorem digit_of_fractionSpan {s : Text} (h : s.head?.any Char.isDigit = false) :
    (fractionSpan s).2.head?.any Char.isDigit = false := by
  unfold fractionSpan
  split
  · split
    · exact digit_of_digitSpan _
    · rfl
  · exact h

theorem digit_of_exponentSpan {s : Text} (h : s.head?.any Char.isDigit = false) :
    (exponentSpan s).2.head?.any Char.isDigit = false := by
  cases s with
  | nil => rfl
  | cons c s =>
    rw [exponentSpan_cons]
    split
    · exact digit_of_digitSpan _
    · exact h

theorem not_absorbed_number {s : Text} (h : ∀ u, (numberSpan s).2 ≠ ['%'] ++ u) :
    absorbs ⟨.number, (numberSpan s).1⟩ (numberSpan s).2 = false := by
  have hdigit : (numberSpan s).2.head?.any Char.isDigit = false :=
    digit_of_exponentSpan (digit_of_fractionSpan (digit_of_digitSpan _))
  have hhead : ((numberSpan s).2.head?.any fun c => c.isDigit || c == '%') = false := by
    cases hr : (numberSpan s).2 with
    | nil => rfl
    | cons c r =>
      rw [hr] at hdigit
      have hne : c ≠ '%' := by
        rintro rfl
        exact h r hr
      simpa [hne] using hdigit
  rw [absorbs, hhead, Bool.false_or, Bool.and_eq_false_imp]
  intro hwhole
  -- A number without a point and an exponent has no fraction behind it that it could take.
  simp only [numberSpan, isWhole, List.all_append, Bool.and_eq_true] at hwhole ⊢
  obtain ⟨⟨-, hfraction⟩, hexponent⟩ := hwhole
  generalize (digitSpan (signSpan s).2).2 = rest at hfraction hexponent ⊢
  have hrest : (fractionSpan rest).1 = [] ∧ (fractionSpan rest).2 = rest := by
    unfold fractionSpan at hfraction ⊢
    split at hfraction
    · split at hfraction
      · cases hfraction
      · next hd => simp [hd]
    · simp_all
  rw [hrest.2] at hexponent ⊢
  have hleft : (exponentSpan rest).2 = rest := by
    cases rest with
    | nil => rfl
    | cons c rest =>
      rw [exponentSpan_cons] at hexponent ⊢
      split at hexponent
      · next he =>
        simp only [Bool.and_eq_true, Bool.or_eq_true, beq_iff_eq] at he
        rcases he.1 with rfl | rfl <;> cases hexponent
      · next he => rw [if_neg he]
  rw [hleft]
  unfold startsFraction
  split
  · next d u =>
    by_cases hd : d.isDigit = true
    · simp [fractionSpan, hd] at hrest
    · simpa using hd
  · rfl

theorem not_absorbed_name (s : Text) : (name s).2.head?.any isNameChar = false := by
  cases hr : (name s).2 with
  | nil => rfl
  | cons c r => exact (Lexer.nameChars_stop s hr).1

theorem not_absorbed_hash (h : startsHash r = false) : r.head?.any isNameChar = false := by
  cases r with
  | nil => rfl
  | cons c r =>
    simp only [startsHash, Bool.or_eq_false_iff, List.head?_cons, Option.any_some] at h ⊢
    obtain ⟨hname, hdigit, hminus⟩ := h
    have hminus : c ≠ '-' := by simpa using hminus
    have hstart : isNameStart c = false := by
      by_cases hb : c = '\\'
      · rw [hb]
        rfl
      · simpa [startsName, hminus, hb] using hname
    simp [isNameChar, hstart, hdigit, hminus]

theorem not_absorbed_single (hnumber : startsNumber (c :: r) = false)
    (hname : startsName (c :: r) = false) (hhash : c ≠ '#') :
    absorbs ⟨.delim c, [c]⟩ r = false := by
  have hunsigned {s : Text} (h : startsUnsigned s = false) : s.head?.any Char.isDigit = false := by
    cases s with
    | nil => rfl
    | cons d s =>
      by_cases hd : d.isDigit = true
      · have hpoint : d ≠ '.' := ne_of_isDigit hd rfl
        simp [startsUnsigned, hpoint, hd] at h
      · simpa using hd
  by_cases hminus : c = '-'
  · subst hminus
    have hdigit := hunsigned (s := r) hnumber
    rw [startsName_minus_eq] at hname
    cases r with
    | nil => rfl
    | cons d r =>
      simp only [List.head?_cons, Option.any_some, Bool.or_eq_false_iff] at hname hdigit
      simp [absorbs, isNameChar, hname.1.2, hname.2, hdigit]
  · have hsign : (c == '-' || c == '#') = false := by simp [hminus, hhash]
    simp only [absorbs, hsign, Bool.false_eq_true, if_false]
    by_cases hc : (c == '+' || c == '.') = true
    · simp only [Bool.or_eq_true, beq_iff_eq] at hc
      rcases hc with rfl | rfl
      · exact hunsigned (s := r) hnumber
      · rw [← startsUnsigned_point]
        exact hnumber
    · simp [hc]

theorem absorbs_numeric {s : Text} (h : numeric s = (t, r)) : t.absorbs r = false := by
  cases numeric_cases h with
  | percentage ht =>
    rw [ht]
    rfl
  | dimension _ ht hr =>
    rw [ht, ← hr]
    exact not_absorbed_name _
  | number hpercent _ ht hr =>
    rw [ht, ← hr]
    exact not_absorbed_number hpercent

theorem absorbs_identLike {s : Text} (h : identLike s = (t, r)) : t.absorbs r = false := by
  cases identLike_cases h with
  | ident _ ht hr =>
    rw [ht, ← hr]
    exact not_absorbed_name s
  | function _ _ ht =>
    rw [ht]
    rfl
  | url _ _ hkind => rcases hkind with hkind | hkind <;> simp [absorbs, hkind]

theorem absorbs_symbol {s : Text} (hnumber : startsNumber (c :: s) = false)
    (hname : startsName (c :: s) = false) (h : symbol c s = (t, r)) : t.absorbs r = false := by
  cases symbol_cases c s with
  | space hspace =>
    rw [symbol_space hspace] at h
    obtain ⟨rfl, rfl⟩ := Prod.mk.inj h
    rfl
  | quote hquote =>
    rw [symbol_quote hquote] at h
    obtain ⟨rfl, rfl⟩ := Prod.mk.inj h
    have hkind := kind_stringBody c s
    rcases hkind with hkind | hkind <;> simp [absorbs, hkind]
  | atSign hc =>
    subst hc
    rw [symbol_at] at h
    split at h <;> obtain ⟨rfl, rfl⟩ := Prod.mk.inj h
    · exact not_absorbed_name _
    · rfl
  | hashSign hc =>
    subst hc
    rw [symbol_hash] at h
    by_cases hstarts : startsHash s = true
    · rw [if_pos hstarts] at h
      obtain ⟨rfl, rfl⟩ := Prod.mk.inj h
      exact not_absorbed_name _
    · rw [if_neg hstarts] at h
      obtain ⟨rfl, rfl⟩ := Prod.mk.inj h
      exact not_absorbed_hash (by simpa using hstarts)
  | @comment hc v hv =>
    subst hc hv
    obtain ⟨rfl, rfl⟩ := Prod.mk.inj h
    rfl
  | @cdo hc v hv =>
    subst hc hv
    obtain ⟨rfl, rfl⟩ := Prod.mk.inj h
    rfl
  | @attributeMatch hc v hv =>
    rw [hv, symbol_match hc] at h
    obtain ⟨rfl, rfl⟩ := Prod.mk.inj h
    rfl
  | single halone =>
    rw [symbol_single halone] at h
    obtain ⟨rfl, rfl⟩ := Prod.mk.inj h
    rcases single_cases c with hstop | hdelim
    · rcases isStop_iff.mp hstop with rfl | rfl | rfl | rfl | rfl | rfl | rfl | rfl | rfl <;> rfl
    · rw [hdelim]
      exact not_absorbed_single hnumber hname halone.hashSign

/-- No token absorbs what is behind it in the text that it was read from. -/
theorem absorbs_eq_false {s : Text} (h : next? s = some (t, r)) : t.absorbs r = false := by
  cases next?_cases h with
  | cdc ht =>
    rw [ht]
    rfl
  | numeric _ h => exact absorbs_numeric h
  | identLike _ _ h => exact absorbs_identLike h
  | symbol hs hnumber hname hsymbol =>
    subst hs
    exact absorbs_symbol hnumber hname hsymbol

end Relength.Token
