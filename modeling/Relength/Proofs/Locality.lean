import Relength.Proofs.Lexer.Tokens

/-!
# How far a token looks

What a token takes depends on the text behind it by three characters at most, of which those behind
a bracket, a colon, a semicolon or a comma do not matter, and behind `url(` by whether a quote comes
next. Two texts are `Alike` if no scanner in front of them sees a difference, and stay so behind any
other text. It is enough that they `Agree` on three characters.
`Local f` says that where `f` leaves a text, that text can be exchanged for one that looks alike.

* `Token.local_name`, `Token.local_numeric`: the scanners of names and numbers are local.
-/

namespace Relength.Token

/-- No scanner looks past such a character unless it takes it. -/
def isStop (c : Char) : Bool := [':', ';', ',', '(', ')', '[', ']', '{', '}'].contains c

/-- Two texts start with the same characters, at least `n` or up to one that stops; in front of that
one the second text may end. -/
inductive Agree : Nat → Text → Text → Prop
  | zero (r r' : Text) : Agree 0 r r'
  | nil (n : Nat) : Agree n [] []
  | stop {c : Char} (hc : isStop c = true) (n : Nat) (r r' : Text) : Agree n (c :: r) (c :: r')
  | last {c : Char} (hc : isStop c = true) (n : Nat) (r : Text) : Agree n (c :: r) []
  | cons (c : Char) {n : Nat} {r r' : Text} (h : Agree n r r') : Agree (n + 1) (c :: r) (c :: r')

variable {n : Nat} {c : Char} {r r' : Text}

/-- The first text starts with a piece if the second does and no stop comes before its end. -/
theorem Agree.exists_append {p t : Text} (h : Agree n r (p ++ t))
    (hp : ∀ c ∈ p.dropLast, isStop c = false) (hlength : p.length ≤ n) : ∃ t', r = p ++ t' := by
  induction p generalizing n r with
  | nil => exact ⟨r, rfl⟩
  | cons c p ih =>
    obtain ⟨n, rfl⟩ : ∃ m, n = m + 1 := ⟨n - 1, by simp only [List.length_cons] at hlength; omega⟩
    rcases p with _ | ⟨d, p⟩
    · cases h <;> exact ⟨_, rfl⟩
    · cases h with
      | stop hc =>
        rw [hp c (by simp)] at hc
        cases hc
      | cons _ h =>
        obtain ⟨t', rfl⟩ := ih h (fun c hc => hp c (by simp [hc])) (by simpa using hlength)
        exact ⟨t', rfl⟩

theorem Agree.of_length {y : Text} (h : n ≤ y.length) (r r' : Text) :
    Agree n (y ++ r) (y ++ r') := by
  induction y generalizing n with
  | nil =>
    obtain rfl : n = 0 := by simpa using h
    exact .zero _ _
  | cons c y ih =>
    cases n with
    | zero => exact .zero _ _
    | succ n => exact .cons c (ih (by simpa using h))

/-! ## What is looked at -/

theorem isStop_iff :
    isStop c = true ↔
      c = ':' ∨ c = ';' ∨ c = ',' ∨ c = '(' ∨ c = ')' ∨ c = '[' ∨ c = ']' ∨ c = '{' ∨ c = '}' := by
  simp [isStop]

theorem startsName_stop (hc : isStop c = true) (r : Text) : startsName (c :: r) = false := by
  rcases isStop_iff.mp hc with rfl | rfl | rfl | rfl | rfl | rfl | rfl | rfl | rfl <;> rfl

theorem startsUnsigned_stop (hc : isStop c = true) (r : Text) :
    startsUnsigned (c :: r) = false := by
  rcases isStop_iff.mp hc with rfl | rfl | rfl | rfl | rfl | rfl | rfl | rfl | rfl <;> rfl

theorem startsNumber_stop (hc : isStop c = true) (r : Text) : startsNumber (c :: r) = false := by
  rcases isStop_iff.mp hc with rfl | rfl | rfl | rfl | rfl | rfl | rfl | rfl | rfl <;> rfl

theorem startsNewline_stop (hc : isStop c = true) (r : Text) : startsNewline (c :: r) = false := by
  rcases isStop_iff.mp hc with rfl | rfl | rfl | rfl | rfl | rfl | rfl | rfl | rfl <;> rfl

theorem isDigit_stop (hc : isStop c = true) : c.isDigit = false := by
  rcases isStop_iff.mp hc with rfl | rfl | rfl | rfl | rfl | rfl | rfl | rfl | rfl <;> rfl

theorem isExponent_stop (hc : isStop c = true) : (c == 'e' || c == 'E') = false := by
  rcases isStop_iff.mp hc with rfl | rfl | rfl | rfl | rfl | rfl | rfl | rfl | rfl <;> rfl

theorem startsName_minus_stop (hc : isStop c = true) (r : Text) :
    startsName ('-' :: c :: r) = false := by
  rcases isStop_iff.mp hc with rfl | rfl | rfl | rfl | rfl | rfl | rfl | rfl | rfl <;> rfl

theorem startsUnsigned_point (r : Text) :
    startsUnsigned ('.' :: r) = r.head?.any Char.isDigit := by
  cases r <;> rfl

theorem startsName_minus (d : Char) (r : Text) :
    startsName ('-' :: d :: r) = (d == '\\' || isNameStart d || d == '-') := by
  by_cases hd : d = '\\'
  · subst hd
    rfl
  · have hb : (d == '\\') = false := by simpa using hd
    simp [startsName, hb]

theorem isEmpty_digitSpan (s : Text) :
    (digitSpan s).1.isEmpty = !s.head?.any Char.isDigit := by
  rcases s with _ | ⟨c, s⟩
  · rfl
  · by_cases hc : c.isDigit = true <;> simp [digitSpan, hc]

namespace Agree

theorem any_head? {p : Char → Bool} (hp : ∀ c, isStop c = true → p c = false)
    (h : Agree (n + 1) r r') : r.head?.any p = r'.head?.any p := by
  cases h with
  | nil => rfl
  | stop hc => rfl
  | last hc => simp [hp _ hc]
  | cons c h => rfl

theorem startsNewline (h : Agree (n + 1) r r') : startsNewline r = startsNewline r' := by
  cases h with
  | nil => rfl
  | stop hc => rfl
  | last hc => exact startsNewline_stop hc _
  | cons c h => rfl

theorem startsUnsigned (h : Agree (n + 2) r r') : startsUnsigned r = startsUnsigned r' := by
  cases h with
  | nil => rfl
  | stop hc => rw [startsUnsigned_stop hc, startsUnsigned_stop hc]
  | last hc => exact startsUnsigned_stop hc _
  | cons c h =>
    by_cases hc : c = '.'
    · subst hc
      have hdigit := h.any_head? fun c hc => isDigit_stop hc
      simpa only [startsUnsigned_point] using hdigit
    · simp [Token.startsUnsigned, hc]

theorem startsNumber (h : Agree (n + 3) r r') : startsNumber r = startsNumber r' := by
  cases h with
  | nil => rfl
  | stop hc => rw [startsNumber_stop hc, startsNumber_stop hc]
  | last hc => exact startsNumber_stop hc _
  | cons c h =>
    have hcons := (Agree.cons c h).startsUnsigned
    simp only [Token.startsNumber, h.startsUnsigned, hcons]

theorem startsName (h : Agree (n + 2) r r') : startsName r = startsName r' := by
  cases h with
  | nil => rfl
  | stop hc => rw [startsName_stop hc, startsName_stop hc]
  | last hc => exact startsName_stop hc _
  | cons c h =>
    by_cases hminus : c = '-'
    · subst hminus
      cases h with
      | nil => rfl
      | stop hd => simp only [startsName_minus]
      | last hd => exact startsName_minus_stop hd _
      | cons d h => simp only [startsName_minus]
    · by_cases hb : c = '\\'
      · subst hb
        simp only [Token.startsName, h.startsNewline]
      · simp [Token.startsName, hminus]

/-- The digits of an exponent are there or not. -/
theorem isEmpty_exponent (h : Agree (n + 2) r r') :
    (digitSpan (signSpan r).2).1.isEmpty = (digitSpan (signSpan r').2).1.isEmpty := by
  have hhead : (signSpan r).2.head?.any Char.isDigit = (signSpan r').2.head?.any Char.isDigit := by
    cases h with
    | nil => rfl
    | stop hc =>
      rcases isStop_iff.mp hc with rfl | rfl | rfl | rfl | rfl | rfl | rfl | rfl | rfl <;> rfl
    | last hc =>
      rcases isStop_iff.mp hc with rfl | rfl | rfl | rfl | rfl | rfl | rfl | rfl | rfl <;> rfl
    | cons c h =>
      by_cases hc : (c == '+' || c == '-') = true
      · simp only [signSpan, if_pos hc]
        exact h.any_head? fun c hc => isDigit_stop hc
      · simp only [signSpan, if_neg hc]
        rfl
  rw [isEmpty_digitSpan, isEmpty_digitSpan, hhead]

end Agree

/-! ## Texts that look alike -/

/-- What a scanner looks for past a first character, the signs of numbers and names apart. -/
def lookaheads : List Text :=
  [['\r', '\n'], ['*', '/'], ['!', '-', '-'], ['-', '-'], ['-', '-', '>'], ['-', '>']]

/-- Two texts that no token in front of them tells apart. The second may end where the first has a
character that stops. -/
structure Alike (r r' : Text) : Prop where
  head : r.head? = r'.head? ∨ r.head?.any isStop = true ∧ r' = []
  unsigned : startsUnsigned r = startsUnsigned r'
  number : startsNumber r = startsNumber r'
  name : startsName r = startsName r'
  /-- The digits of an exponent are there or not, -/
  digits : (digitSpan (signSpan r).2).1.isEmpty = (digitSpan (signSpan r').2).1.isEmpty
  /-- and so is the exponent. -/
  exponent : (exponentSpan r).1.isEmpty = (exponentSpan r').1.isEmpty
  ahead : ∀ p ∈ lookaheads, p <+: r' → p <+: r
  quote : startsQuote (r.dropWhile isSpace) = startsQuote (r'.dropWhile isSpace)

theorem startsNewline_eq (r : Text) : startsNewline r = r.head?.any isNewline := by
  cases r <;> rfl

theorem startsName_minus_eq (r : Text) :
    startsName ('-' :: r) = r.head?.any fun d => d == '\\' || isNameStart d || d == '-' := by
  cases r with
  | nil => rfl
  | cons d r => exact startsName_minus d r

theorem isEmpty_exponentSpan (d : Char) (s : Text) :
    (exponentSpan (d :: s)).1.isEmpty =
      !((d == 'e' || d == 'E') && !(digitSpan (signSpan s).2).1.isEmpty) := by
  simp only [exponentSpan]
  split
  · next h =>
    rw [h]
    rfl
  · next h =>
    rw [Bool.not_eq_true] at h
    rw [h]
    rfl

theorem isEmpty_digits (d : Char) (s : Text) :
    (digitSpan (signSpan (d :: s)).2).1.isEmpty =
      !if d == '+' || d == '-' then s.head?.any Char.isDigit else d.isDigit := by
  rw [isEmpty_digitSpan, signSpan]
  split <;> rfl

namespace Alike

theorem refl (r : Text) : Alike r r := ⟨.inl rfl, rfl, rfl, rfl, rfl, rfl, fun _ _ h => h, rfl⟩

theorem any_head? {p : Char → Bool} (hp : ∀ c, isStop c = true → p c = false)
    (h : Alike r r') : r.head?.any p = r'.head?.any p := by
  rcases h.head with h | ⟨hstop, rfl⟩
  · rw [h]
  · cases r with
    | nil => rfl
    | cons c r => exact hp c hstop

theorem startsNewline (h : Alike r r') : startsNewline r = startsNewline r' := by
  rw [startsNewline_eq, startsNewline_eq]
  exact h.any_head? fun c hc => startsNewline_stop hc []

/-- A character in front of both texts. -/
theorem cons (c : Char) (h : Alike r r') : Alike (c :: r) (c :: r') := by
  have hdigit : r.head?.any Char.isDigit = r'.head?.any Char.isDigit :=
    h.any_head? fun c hc => isDigit_stop hc
  have hunsigned : startsUnsigned (c :: r) = startsUnsigned (c :: r') := by
    by_cases hc : c = '.'
    · subst hc
      rw [startsUnsigned_point, startsUnsigned_point, hdigit]
    · simp [startsUnsigned, hc]
  have hsign : (r.head?.any fun d => d == '\\' || isNameStart d || d == '-') =
      r'.head?.any fun d => d == '\\' || isNameStart d || d == '-' := by
    refine h.any_head? fun d hd => ?_
    rw [← startsName_minus d []]
    exact startsName_minus_stop hd []
  refine ⟨.inl rfl, hunsigned, ?_, ?_, ?_, ?_, ?_, ?_⟩
  · simp only [startsNumber, h.unsigned, hunsigned]
  · by_cases hminus : c = '-'
    · subst hminus
      rw [startsName_minus_eq, startsName_minus_eq, hsign]
    · by_cases hb : c = '\\'
      · subst hb
        simp only [startsName, h.startsNewline]
      · simp [startsName, hminus]
  · rw [isEmpty_digits, isEmpty_digits, hdigit]
  · rw [isEmpty_exponentSpan, isEmpty_exponentSpan, h.digits]
  · have hhead (d : Char) : [d] <+: r' → [d] <+: r := by
      rintro ⟨t, rfl⟩
      rcases h.head with heq | ⟨-, hnil⟩
      · cases r with
        | nil => cases heq
        | cons e r =>
          cases heq
          exact ⟨r, rfl⟩
      · cases hnil
    have hminus := h.ahead ['-', '-'] (by simp [lookaheads])
    have harrow := h.ahead ['-', '>'] (by simp [lookaheads])
    intro p hp
    simp only [lookaheads, List.mem_cons, List.not_mem_nil, or_false] at hp
    rcases hp with rfl | rfl | rfl | rfl | rfl | rfl <;> simp only [List.cons_prefix_cons] <;>
      exact fun hc => ⟨hc.1, by first | exact hhead _ hc.2 | exact hminus hc.2 | exact harrow hc.2⟩
  · by_cases hc : isSpace c = true
    · simpa [hc] using h.quote
    · simp [hc, startsQuote]

theorem append (a : Text) (h : Alike r r') : Alike (a ++ r) (a ++ r') := by
  induction a with
  | nil => exact h
  | cons c a ih => exact ih.cons c

theorem of_agree (h : Agree 3 r r')
    (hquote : startsQuote (r.dropWhile isSpace) = startsQuote (r'.dropWhile isSpace)) :
    Alike r r' := by
  refine ⟨?_, h.startsUnsigned, h.startsNumber, h.startsName, h.isEmpty_exponent, ?_, ?_, hquote⟩
  · cases h with
    | nil => exact .inl rfl
    | stop hc => exact .inl rfl
    | last hc => exact .inr ⟨hc, rfl⟩
    | cons c h => exact .inl rfl
  · cases h with
    | nil => rfl
    | stop hc =>
      have he := isExponent_stop hc
      rw [isEmpty_exponentSpan, isEmpty_exponentSpan, he]
      rfl
    | last hc =>
      have he := isExponent_stop hc
      rw [isEmpty_exponentSpan, he]
      rfl
    | cons c h => rw [isEmpty_exponentSpan, isEmpty_exponentSpan, h.isEmpty_exponent]
  · rintro p hp ⟨t, rfl⟩
    simp only [lookaheads, List.mem_cons, List.not_mem_nil, or_false] at hp
    have hstops : ∀ c ∈ p.dropLast, isStop c = false := by
      rcases hp with rfl | rfl | rfl | rfl | rfl | rfl <;> simp [isStop]
    have hlength : p.length ≤ 3 := by
      rcases hp with rfl | rfl | rfl | rfl | rfl | rfl <;> simp
    obtain ⟨t', rfl⟩ := h.exists_append hstops hlength
    exact ⟨t', rfl⟩

/-- A text in front of which three characters stand, of which one is no white space. -/
theorem of_length {y : Text} (hlength : 3 ≤ y.length) (hspace : ∃ c ∈ y, isSpace c = false)
    (r r' : Text) : Alike (y ++ r) (y ++ r') := by
  refine .of_agree (.of_length hlength r r') ?_
  clear hlength
  induction y with
  | nil => simp at hspace
  | cons c y ih =>
    by_cases hc : isSpace c = true
    · obtain ⟨d, hd, hdspace⟩ := hspace
      have hne : d ≠ c := by
        rintro rfl
        rw [hc] at hdspace
        cases hdspace
      simpa [hc] using ih ⟨d, (List.mem_cons.mp hd).resolve_left hne, hdspace⟩
    · simp [hc, startsQuote]

theorem of_stop (hc : isStop c = true) (r r' : Text) : Alike (c :: r) (c :: r') := by
  refine .of_agree (.stop hc 3 r r') ?_
  rcases isStop_iff.mp hc with rfl | rfl | rfl | rfl | rfl | rfl | rfl | rfl | rfl <;> rfl

/-- The end of a text looks like a character that stops. -/
theorem of_end (hc : isStop c = true) (r : Text) : Alike (c :: r) [] := by
  refine .of_agree (.last hc 3 r) ?_
  rcases isStop_iff.mp hc with rfl | rfl | rfl | rfl | rfl | rfl | rfl | rfl | rfl <;> rfl

end Alike

/-- No scanner looks past such a character unless it takes it, nor past white space behind it. -/
def isFinal (c : Char) : Bool :=
  !(['-', '+', '.', '\\', 'e', 'E', '\r', '*', '!'].contains c || isSpace c)

theorem Alike.of_final (hc : isFinal c = true) (r r' : Text) : Alike (c :: r) (c :: r') := by
  simp only [isFinal, Bool.not_eq_true', Bool.or_eq_false_iff, List.contains_eq_mem,
    decide_eq_false_iff_not, List.mem_cons, List.not_mem_nil, or_false, not_or] at hc
  obtain ⟨⟨hminus, hplus, hpoint, hb, hlower, hupper, hcr, hstar, hbang⟩, hspace⟩ := hc
  have hsign : (c == '+' || c == '-') = false := by simp [hplus, hminus]
  have hexponent : (c == 'e' || c == 'E') = false := by simp [hlower, hupper]
  refine ⟨.inl rfl, ?_, ?_, ?_, ?_, ?_, ?_, ?_⟩
  · simp [startsUnsigned, hpoint]
  · simp [startsNumber, startsUnsigned, hplus, hminus, hpoint]
  · simp [startsName, hminus]
  · rw [isEmpty_digits, isEmpty_digits, hsign]
    rfl
  · rw [isEmpty_exponentSpan, isEmpty_exponentSpan, hexponent]
    rfl
  · rintro p hp ⟨t, ht⟩
    simp only [lookaheads, List.mem_cons, List.not_mem_nil, or_false] at hp
    have hhead := congrArg List.head? ht
    rcases hp with rfl | rfl | rfl | rfl | rfl | rfl <;>
      exact absurd (Option.some.inj hhead).symm (by assumption)
  · simp [hspace, startsQuote]

/-- The text has such a character at its end. -/
def EndsFinal (w : Text) : Prop := ∃ a c, w = a ++ [c] ∧ isFinal c = true

theorem EndsFinal.alike {w : Text} (h : EndsFinal w) (r r' : Text) : Alike (w ++ r) (w ++ r') := by
  obtain ⟨a, c, rfl, hc⟩ := h
  rw [List.append_assoc, List.append_assoc]
  exact .append a (.of_final hc r r')

/-! ## Names and numbers -/

/-- Where `f` leaves a text, what it takes is the same in front of a text that looks alike. -/
def Local {α : Type} (f : Text → α × Text) : Prop :=
  ∀ w y r r', Alike r r' → (f (w ++ r)).2 = y ++ r → f (w ++ r') = ((f (w ++ r)).1, y ++ r')

/-- What is left is the end of the text. -/
def Leaves {α : Type} (f : Text → α × Text) : Prop := ∀ s, (f s).2 <:+ s

theorem Alike.eq_nil (h : Alike [] r') : r' = [] := by
  rcases h.head with h | ⟨-, h⟩
  · cases r' with
    | nil => rfl
    | cons c r' => cases h
  · exact h

theorem Alike.cases_cons (h : Alike (c :: r) r') :
    (∃ t, r' = c :: t) ∨ isStop c = true ∧ r' = [] := by
  rcases h.head with h | h
  · cases r' with
    | nil => cases h
    | cons d r' =>
      cases h
      exact .inl ⟨_, rfl⟩
  · exact .inr h

theorem front_eq {w y : Text} (h : w ++ r = y ++ r) : y = w := (List.append_cancel_right h).symm

theorem left_eq_nil {y : Text} (h : y ++ r <:+ r) : y = [] := by
  have := h.length_le
  rw [List.length_append] at this
  exact List.length_eq_zero_iff.mp (by omega)

/-- A piece of which the text is left stands in front of that text. -/
theorem exists_front {p t w y rest : Text} (h : w ++ r = p ++ t) (ht : rest <:+ t)
    (hrest : rest = y ++ r) : ∃ v, w = p ++ v ∧ t = v ++ r := by
  have hlength := ht.length_le
  rw [hrest, List.length_append] at hlength
  rcases List.append_eq_append_iff.mp h with ⟨z, rfl, rfl⟩ | ⟨z, rfl, rfl⟩
  · simp only [List.length_append] at hlength
    obtain rfl : z = [] := List.length_eq_zero_iff.mp (by omega)
    exact ⟨[], by simp, rfl⟩
  · exact ⟨z, rfl, rfl⟩

/-- What is not in front of a text is not in front of one that looks alike. -/
theorem Alike.not_front {w p : Text} (h : Alike r r') (hp : p.length = 1 ∨ p ∈ lookaheads)
    (hnot : ∀ t, w ++ r ≠ p ++ t) (t : Text) : w ++ r' ≠ p ++ t := by
  intro ht
  have halike := h.append w
  have hprefix : p <+: w ++ r := by
    rcases hp with hp | hp
    · obtain ⟨c, rfl⟩ := List.length_eq_one_iff.mp hp
      have hhead := halike.head
      rw [ht] at hhead
      generalize w ++ r = s at hhead
      cases s with
      | nil => simp at hhead
      | cons d s =>
        obtain rfl : d = c := by simpa using hhead
        exact ⟨s, rfl⟩
    · exact halike.ahead p hp ⟨t, ht.symm⟩
  obtain ⟨t', ht'⟩ := hprefix
  exact hnot t' ht'.symm

/-- A text of which a character has been taken is not left. -/
theorem not_left {t y rest : Text} (h : rest.length ≤ t.length) : rest ≠ y ++ c :: t := by
  intro he
  have := congrArg List.length he
  simp only [List.length_append, List.length_cons] at this
  omega

theorem exists_left {rest s y : Text} (h : rest <:+ s) (hrest : rest = y ++ r) :
    ∃ v, y <:+ v ∧ s = v ++ r := by
  obtain ⟨a, rfl⟩ := h
  exact ⟨a ++ y, ⟨a, rfl⟩, by rw [hrest, List.append_assoc]⟩

theorem Leaves.of_append {α : Type} {f : Text → α × Text} {source : α → Text}
    (h : ∀ s, source (f s).1 ++ (f s).2 = s) : Leaves f := fun s => ⟨_, h s⟩

theorem Leaves.of_span {f : Text → Text × Text} (h : ∀ s, (f s).1 ++ (f s).2 = s) : Leaves f :=
  fun s => ⟨_, h s⟩

/-- One scanner behind another. -/
theorem Local.bind {α β γ : Type} {f : Text → α × Text} {g : Text → β × Text} (hf : Local f)
    (hg : Local g) (hleaves : Leaves g) (k : α → β → γ) :
    Local fun s => (k (f s).1 (g (f s).2).1, (g (f s).2).2) := by
  intro w y r r' h hrest
  obtain ⟨v, -, hv⟩ := exists_left (hleaves (f (w ++ r)).2) hrest
  have hf' := hf w v r r' h hv
  have hrest' : (g (v ++ r)).2 = y ++ r := by
    rw [← hv]
    exact hrest
  have hg' := hg v y r r' h hrest'
  simp only [hf', hg', hv]

theorem Leaves.bind {α β γ : Type} {f : Text → α × Text} {g : Text → β × Text} (hf : Leaves f)
    (hg : Leaves g) (k : α → β → γ) : Leaves fun s => (k (f s).1 (g (f s).2).1, (g (f s).2).2) :=
  fun s => (hg (f s).2).trans (hf s)

theorem Local.map {α β : Type} {f : Text → α × Text} (hf : Local f) (k : α → β) :
    Local fun s => (k (f s).1, (f s).2) := by
  intro w y r r' h hrest
  have := hf w y r r' h hrest
  simp only [this]

/-- Only a text with a character to look at has to be looked at. -/
theorem Local.of_cons {α : Type} {f : Text → α × Text}
    (h : ∀ w y c r r', Alike (c :: r) r' → (f (w ++ c :: r)).2 = y ++ c :: r →
      f (w ++ r') = ((f (w ++ c :: r)).1, y ++ r')) : Local f := by
  intro w y r r' ha hrest
  rcases r with _ | ⟨c, r⟩
  · obtain rfl := ha.eq_nil
    rw [← hrest]
  · exact h w y c r r' ha hrest

theorem local_hexSpan (k : Nat) : Local (hexSpan k) := by
  apply Local.of_cons
  intro w y c r r' h hrest
  induction k generalizing w y with
  | zero =>
    simp only [hexSpan] at hrest ⊢
    rw [front_eq hrest]
  | succ k ih =>
    rcases w with _ | ⟨d, w⟩
    · by_cases hc : Text.isHexDigit c = true
      · have hlength := congrArg List.length (hexSpan_append k r)
        simp only [List.nil_append, hexSpan, if_pos hc] at hrest
        exact absurd hrest (not_left (by rw [List.length_append] at hlength; omega))
      · simp only [List.nil_append, hexSpan, if_neg hc] at hrest ⊢
        rw [front_eq (w := []) hrest]
        obtain ⟨t, rfl⟩ | ⟨-, rfl⟩ := h.cases_cons
        · simp [hexSpan, hc]
        · rfl
    · by_cases hd : Text.isHexDigit d = true
      · simp only [List.cons_append, hexSpan, if_pos hd] at hrest ⊢
        rw [ih w y hrest]
      · simp only [List.cons_append, hexSpan, if_neg hd] at hrest ⊢
        rw [front_eq (w := d :: w) hrest]
        rfl

theorem spaceSpan_cons {c : Char} {s : Text} (h : c = '\r' → s.head? ≠ some '\n') :
    spaceSpan (c :: s) = if isSpace c then ([c], s) else ([], c :: s) := by
  unfold spaceSpan
  split
  · next heq =>
    cases heq
    exact absurd rfl (h rfl)
  · next heq =>
    cases heq
    rfl
  · next heq => cases heq

theorem local_spaceSpan : Local spaceSpan := by
  apply Local.of_cons
  intro w y c r r' h hrest
  have hcons (d : Char) (w : Text) (hrest : (spaceSpan (d :: w ++ c :: r)).2 = y ++ c :: r)
      (hd : d = '\r' → (w ++ c :: r).head? ≠ some '\n') :
      spaceSpan (d :: w ++ r') = ((spaceSpan (d :: w ++ c :: r)).1, y ++ r') := by
    have hd' : d = '\r' → (w ++ r').head? ≠ some '\n' := by
      rcases w with _ | ⟨e, w⟩
      · obtain ⟨t, rfl⟩ | ⟨-, rfl⟩ := h.cases_cons
        · exact hd
        · simp
      · exact hd
    rw [List.cons_append, spaceSpan_cons hd] at hrest
    rw [List.cons_append, List.cons_append, spaceSpan_cons hd', spaceSpan_cons hd]
    split at hrest
    · next hs => rw [if_pos hs, if_pos hs, front_eq hrest]
    · next hs =>
      rw [if_neg hs, if_neg hs, front_eq (w := d :: w) hrest]
      rfl
  rcases w with _ | ⟨d, _ | ⟨e, w⟩⟩
  · have hlength := congrArg List.length (spaceSpan_append (c :: r))
    by_cases hs : isSpace c = true
    · refine absurd hrest (not_left ?_)
      have : (spaceSpan (c :: r)).1 ≠ [] := by
        unfold spaceSpan
        split <;> simp_all
      have := List.length_pos_iff.mpr this
      simp only [List.length_append, List.length_cons, List.nil_append] at hlength ⊢
      omega
    · have hcr (r : Text) : c = '\r' → r.head? ≠ some '\n' := by
        rintro rfl
        exact absurd rfl hs
      simp only [List.nil_append, spaceSpan_cons (hcr _), if_neg hs] at hrest ⊢
      rw [front_eq (w := []) hrest]
      obtain ⟨t, rfl⟩ | ⟨-, rfl⟩ := h.cases_cons
      · simp [spaceSpan_cons (hcr _), hs]
      · rfl
  · by_cases hcrlf : d = '\r' ∧ c = '\n'
    · obtain ⟨rfl, rfl⟩ := hcrlf
      exact absurd hrest (not_left (Nat.le_refl _))
    · refine hcons d [] hrest fun hd hc => hcrlf ⟨hd, ?_⟩
      simpa using hc
  · by_cases hcrlf : d = '\r' ∧ e = '\n'
    · obtain ⟨rfl, rfl⟩ := hcrlf
      obtain rfl : y = w := front_eq hrest
      rfl
    · refine hcons d (e :: w) hrest fun hd he => hcrlf ⟨hd, ?_⟩
      simpa using he

theorem leaves_digitSpan : Leaves digitSpan := .of_span digitSpan_append

theorem leaves_signSpan : Leaves signSpan := .of_span signSpan_append

theorem local_span (p : Char → Bool) : Local fun s => (s.takeWhile p, s.dropWhile p) := by
  apply Local.of_cons
  intro w y c r r' h hrest
  induction w generalizing y with
  | nil =>
    by_cases hc : p c = true
    · have hlength : (r.dropWhile p).length ≤ r.length := List.length_dropWhile_le p r
      simp only [List.nil_append, List.dropWhile_cons, if_pos hc] at hrest
      exact absurd hrest (not_left hlength)
    · simp only [List.nil_append, List.dropWhile_cons, List.takeWhile_cons, if_neg hc] at hrest ⊢
      rw [front_eq (w := []) hrest]
      obtain ⟨t, rfl⟩ | ⟨-, rfl⟩ := h.cases_cons
      · simp [hc]
      · rfl
  | cons d w ih =>
    by_cases hd : p d = true
    · simp only [List.cons_append, List.dropWhile_cons, List.takeWhile_cons, if_pos hd] at hrest ⊢
      have := ih y hrest
      simp only [Prod.mk.injEq] at this ⊢
      exact ⟨by rw [this.1], this.2⟩
    · simp only [List.cons_append, List.dropWhile_cons, List.takeWhile_cons, if_neg hd] at hrest ⊢
      rw [front_eq (w := d :: w) hrest]
      rfl

theorem local_digitSpan : Local digitSpan := local_span Char.isDigit

theorem local_signSpan : Local signSpan := by
  apply Local.of_cons
  intro w y c r r' h hrest
  rcases w with _ | ⟨d, w⟩
  · by_cases hc : (c == '+' || c == '-') = true
    · simp only [List.nil_append, signSpan, if_pos hc] at hrest
      exact absurd hrest (not_left (Nat.le_refl _))
    · simp only [List.nil_append, signSpan, if_neg hc] at hrest ⊢
      rw [front_eq (w := []) hrest]
      obtain ⟨t, rfl⟩ | ⟨-, rfl⟩ := h.cases_cons
      · simp [hc]
      · rfl
  · by_cases hd : (d == '+' || d == '-') = true
    · simp only [List.cons_append, signSpan, if_pos hd] at hrest ⊢
      rw [front_eq hrest]
    · simp only [List.cons_append, signSpan, if_neg hd] at hrest ⊢
      rw [front_eq (w := d :: w) hrest]
      rfl

theorem fractionSpan_point (s : Text) :
    fractionSpan ('.' :: s) =
      if s.head?.any Char.isDigit then ('.' :: (digitSpan s).1, (digitSpan s).2)
      else ([], '.' :: s) := by
  rcases s with _ | ⟨d, s⟩
  · rfl
  · simp [fractionSpan]
    rfl

theorem fractionSpan_of_ne {d : Char} (hd : d ≠ '.') (s : Text) :
    fractionSpan (d :: s) = ([], d :: s) := by
  simp [fractionSpan, hd]

theorem local_fractionSpan : Local fractionSpan := by
  apply Local.of_cons
  intro w y c r r' h hrest
  rcases w with _ | ⟨d, w⟩
  · by_cases hc : c = '.'
    · subst hc
      obtain ⟨t, rfl⟩ | ⟨hstop, -⟩ := h.cases_cons
      · have hhead := h.unsigned
        rw [startsUnsigned_point, startsUnsigned_point] at hhead
        simp only [List.nil_append, fractionSpan_point] at hrest ⊢
        split at hrest
        · exact absurd hrest (not_left (leaves_digitSpan r).length_le)
        · next hdigit =>
          rw [if_neg hdigit, ← hhead, if_neg hdigit, front_eq (w := []) hrest]
          rfl
      · cases hstop
    · simp only [List.nil_append, fractionSpan_of_ne hc] at hrest ⊢
      rw [front_eq (w := []) hrest]
      obtain ⟨t, rfl⟩ | ⟨-, rfl⟩ := h.cases_cons
      · rw [fractionSpan_of_ne hc]
        rfl
      · rfl
  · by_cases hd : d = '.'
    · subst hd
      have hhead := (h.append w).any_head? fun c hc => isDigit_stop hc
      simp only [List.cons_append, fractionSpan_point] at hrest ⊢
      split at hrest
      · next hdigit =>
        rw [if_pos hdigit, ← hhead, if_pos hdigit, local_digitSpan w y _ _ h hrest]
      · next hdigit =>
        rw [if_neg hdigit, ← hhead, if_neg hdigit, front_eq (w := '.' :: w) hrest]
        rfl
    · simp only [List.cons_append, fractionSpan_of_ne hd] at hrest ⊢
      rw [front_eq (w := d :: w) hrest]
      rfl

/-- The sign and the digits of an exponent. -/
def exponentTail (s : Text) : Text × Text :=
  ((signSpan s).1 ++ (digitSpan (signSpan s).2).1, (digitSpan (signSpan s).2).2)

theorem leaves_exponentTail : Leaves exponentTail :=
  leaves_signSpan.bind leaves_digitSpan (· ++ ·)

theorem local_exponentTail : Local exponentTail :=
  local_signSpan.bind local_digitSpan leaves_digitSpan (· ++ ·)

theorem exponentSpan_cons (d : Char) (s : Text) :
    exponentSpan (d :: s) =
      if (d == 'e' || d == 'E') && !(digitSpan (signSpan s).2).1.isEmpty then
        (d :: (exponentTail s).1, (exponentTail s).2)
      else ([], d :: s) := rfl

theorem local_exponentSpan : Local exponentSpan := by
  apply Local.of_cons
  intro w y c r r' h hrest
  rcases w with _ | ⟨d, w⟩
  · simp only [List.nil_append, exponentSpan_cons] at hrest ⊢
    split at hrest
    · exact absurd hrest (not_left (leaves_exponentTail r).length_le)
    · next he =>
      rw [if_neg he, front_eq (w := []) hrest]
      obtain ⟨t, rfl⟩ | ⟨-, rfl⟩ := h.cases_cons
      · have hsame : ((c == 'e' || c == 'E') && !(digitSpan (signSpan r).2).1.isEmpty) =
            ((c == 'e' || c == 'E') && !(digitSpan (signSpan t).2).1.isEmpty) := by
          by_cases hc : (c == 'e' || c == 'E') = true
          · have hexponent := h.exponent
            rw [isEmpty_exponentSpan, isEmpty_exponentSpan, hc] at hexponent
            simpa [hc] using hexponent
          · simp [hc]
        rw [exponentSpan_cons, if_neg (hsame ▸ he)]
        rfl
      · rfl
  · have hsame := (h.append w).digits
    simp only [List.cons_append, exponentSpan_cons, hsame] at hrest ⊢
    split at hrest
    · next he => rw [if_pos he, if_pos he, local_exponentTail w y _ _ h hrest]
    · next he =>
      rw [if_neg he, if_neg he, front_eq (w := d :: w) hrest]
      rfl

theorem leaves_fractionSpan : Leaves fractionSpan := .of_span fractionSpan_append

theorem leaves_exponentSpan : Leaves exponentSpan := .of_span exponentSpan_append

theorem local_numberSpan : Local numberSpan :=
  ((local_signSpan.bind local_digitSpan leaves_digitSpan (· ++ ·)).bind local_fractionSpan
    leaves_fractionSpan (· ++ ·)).bind local_exponentSpan leaves_exponentSpan (· ++ ·)

theorem leaves_spaceSpan : Leaves spaceSpan := .of_span spaceSpan_append

theorem leaves_escape : Leaves escape := .of_append escape_append

theorem escape_ne_nil (c : Char) (s : Text) : (escape (c :: s)).1.source ≠ [] := by
  unfold escape
  by_cases hc : Text.isHexDigit c = true <;> simp [hc, hexSpan]

/-- A text of which something is taken is not left. -/
theorem taken {a rest y : Text} (h : a ++ rest = c :: r) (ha : a ≠ []) : rest ≠ y ++ c :: r := by
  have hlength := congrArg List.length h
  have := List.length_pos_iff.mpr ha
  simp only [List.length_append, List.length_cons] at hlength
  exact not_left (by omega)

theorem local_escape : Local escape := by
  apply Local.of_cons
  intro w y c r r' h hrest
  rcases w with _ | ⟨d, w⟩
  · exact absurd hrest (taken (escape_append (c :: r)) (escape_ne_nil c r))
  · by_cases hd : Text.isHexDigit d = true
    · have hspans := (local_hexSpan 6).bind local_spaceSpan leaves_spaceSpan
        (fun digits space => (⟨digits ++ space, charOfCode (Text.hexValue digits)⟩ : NameChar))
      have := hspans (d :: w) y _ _ h
      simp only [List.cons_append, escape, if_pos hd] at hrest this ⊢
      exact this hrest
    · simp only [List.cons_append, escape, if_neg hd] at hrest ⊢
      rw [front_eq hrest]

theorem leaves_nameChars : Leaves nameChars := fun s => ⟨_, name_append s⟩

/-- An escape in front of more that leaves a text. -/
theorem exists_escape {rest w y : Text} (h : Alike r r') (hrest : rest <:+ (escape (w ++ r)).2)
    (hy : rest = y ++ r) :
    ∃ v, v.length ≤ w.length ∧ (escape (w ++ r)).2 = v ++ r ∧
      escape (w ++ r') = ((escape (w ++ r)).1, v ++ r') := by
  obtain ⟨v, -, hv⟩ := exists_left hrest hy
  refine ⟨v, ?_, hv, local_escape w v r r' h hv⟩
  have := length_escape_le (w ++ r)
  rw [hv] at this
  simp only [List.length_append] at this
  omega

theorem nameChars_of_stop {c : Char} {s : Text} (hc : isNameChar c = false)
    (hb : c = '\\' → startsNewline s = true) : nameChars (c :: s) = ([], c :: s) := by
  have hescape : (c == '\\' && !startsNewline s) = false := by
    by_cases h : c = '\\'
    · simp [hb h]
    · simp [h]
  rw [nameChars]
  simp [hescape, hc]

theorem local_nameChars : Local nameChars := by
  apply Local.of_cons
  intro w y c r r' h hrest
  induction hlen : w.length using Nat.strong_induction_on generalizing w y with
  | _ n ih =>
    rcases w with _ | ⟨d, w⟩
    · obtain rfl := left_eq_nil (hrest ▸ leaves_nameChars _)
      obtain ⟨hc, hb⟩ := Lexer.nameChars_stop _ hrest
      simp only [List.nil_append, nameChars_of_stop hc hb]
      obtain ⟨t, rfl⟩ | ⟨-, rfl⟩ := h.cases_cons
      · have hb' : c = '\\' → startsNewline t = true := by
          rintro rfl
          have hname := h.name
          simp only [startsName, hb rfl] at hname
          simpa using hname.symm
        exact nameChars_of_stop hc hb'
      · rw [nameChars]
    · have hnewline : startsNewline (w ++ c :: r) = startsNewline (w ++ r') :=
        (h.append w).startsNewline
      rw [List.cons_append, nameChars, hnewline] at hrest
      rw [List.cons_append, nameChars, List.cons_append, nameChars, hnewline]
      simp only [List.length_cons] at hlen
      by_cases hb : (d == '\\' && !startsNewline (w ++ r')) = true
      · simp only [if_pos hb] at hrest ⊢
        obtain ⟨v, hlt, hv, hescape⟩ := exists_escape h (leaves_nameChars _) hrest
        rw [hescape]
        rw [hv] at hrest ⊢
        rw [ih _ (by omega) v y hrest rfl]
      · by_cases hd : isNameChar d = true
        · simp only [if_neg hb, if_pos hd] at hrest ⊢
          rw [ih _ (by omega) w y hrest rfl]
        · simp only [if_neg hb, if_neg hd] at hrest ⊢
          rw [front_eq (w := d :: w) hrest]
          rfl

theorem leaves_name : Leaves name := .of_append name_append

theorem local_name : Local name :=
  local_nameChars.map fun chars : List NameChar =>
    (⟨chars.flatMap NameChar.source, chars.map NameChar.value⟩ : Name)

theorem numeric_percent {s t : Text} (h : (numberSpan s).2 = ['%'] ++ t) :
    numeric s = (⟨.percentage, (numberSpan s).1 ++ ['%']⟩, t) := by
  simp only [numeric, h, List.singleton_append]

theorem numeric_eq {s : Text} (h : ∀ t, (numberSpan s).2 ≠ ['%'] ++ t) :
    numeric s =
      if startsName (numberSpan s).2 then
        (⟨.dimension (name (numberSpan s).2).1.value,
            (numberSpan s).1 ++ (name (numberSpan s).2).1.source⟩,
          (name (numberSpan s).2).2)
      else (⟨.number, (numberSpan s).1⟩, (numberSpan s).2) := by
  unfold numeric
  dsimp only
  split
  · next t ht => exact absurd ht (h t)
  · rfl

/-- What a number is a token of, by what stands behind it. -/
inductive NumericCase (s : Text) (t : Token) (r : Text) : Prop where
  | percentage (ht : t = ⟨.percentage, (numberSpan s).1 ++ ['%']⟩)
    (hr : (numberSpan s).2 = ['%'] ++ r)
  | dimension (hstarts : startsName (numberSpan s).2 = true)
    (ht : t = ⟨.dimension (name (numberSpan s).2).1.value,
      (numberSpan s).1 ++ (name (numberSpan s).2).1.source⟩)
    (hr : (name (numberSpan s).2).2 = r)
  | number (hpercent : ∀ u, (numberSpan s).2 ≠ ['%'] ++ u)
    (hstarts : startsName (numberSpan s).2 = false) (ht : t = ⟨.number, (numberSpan s).1⟩)
    (hr : (numberSpan s).2 = r)

theorem numeric_cases {s : Text} {t : Token} (h : numeric s = (t, r)) : NumericCase s t r := by
  by_cases hpercent : ∃ u, (numberSpan s).2 = ['%'] ++ u
  · obtain ⟨u, hu⟩ := hpercent
    rw [numeric_percent hu] at h
    obtain ⟨ht, rfl⟩ := Prod.mk.inj h
    exact .percentage ht.symm hu
  · rw [numeric_eq (not_exists.mp hpercent)] at h
    split at h <;> obtain ⟨ht, hr⟩ := Prod.mk.inj h
    · next hstarts => exact .dimension hstarts ht.symm hr
    · next hstarts => exact .number (not_exists.mp hpercent) (by simpa using hstarts) ht.symm hr

theorem numeric_suffix (s : Text) : (numeric s).2 <:+ (numberSpan s).2 := by
  cases numeric_cases (Prod.mk.eta (p := numeric s)).symm with
  | percentage _ hr =>
    rw [hr]
    exact List.suffix_cons _ _
  | dimension _ _ hr =>
    rw [← hr]
    exact leaves_name _
  | number _ _ _ hr => rw [hr]

theorem local_numeric : Local numeric := by
  intro w y r r' h hrest
  obtain ⟨v, -, hv⟩ := exists_left (numeric_suffix (w ++ r)) hrest
  have hspan := local_numberSpan w v r r' h hv
  by_cases hpercent : ∃ t, v ++ r = ['%'] ++ t
  · obtain ⟨t, ht⟩ := hpercent
    rw [ht] at hv
    rw [numeric_percent hv] at hrest
    obtain ⟨v, rfl, rfl⟩ := exists_front ht (List.suffix_refl t) hrest
    have hv' : (numberSpan (w ++ r')).2 = ['%'] ++ (v ++ r') := by rw [hspan]; rfl
    rw [numeric_percent hv, numeric_percent hv', hspan, front_eq hrest]
  · have hnot := not_exists.mp hpercent
    have hne : ∀ t, (numberSpan (w ++ r)).2 ≠ ['%'] ++ t := by rw [hv]; exact hnot
    have hne' : ∀ t, (numberSpan (w ++ r')).2 ≠ ['%'] ++ t := by
      rw [hspan]
      exact h.not_front (.inl rfl) hnot
    have hstart : startsName (v ++ r) = startsName (v ++ r') := (h.append v).name
    rw [numeric_eq hne, hv, hstart] at hrest
    rw [numeric_eq hne, numeric_eq hne', hspan, hv, hstart]
    split at hrest
    · next hs => rw [if_pos hs, if_pos hs, local_name v y r r' h hrest]
    · next hs => rw [if_neg hs, if_neg hs, front_eq hrest]

end Relength.Token
