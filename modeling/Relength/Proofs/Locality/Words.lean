import Relength.Proofs.Locality.Boundary
import Relength.Proofs.Locality.Names

/-!
# Words in front of other text

A token that ends with a letter or a digit is a `Word`: a number, or a name, or a number with a name
behind it. If it stands in front of a semicolon and is put in front of a text with no name at its
start, it may still take a `(`, a `%` or a number with a point at its start.

* `Token.exists_word`: the tokens that end so;
* `Token.exists_read`: what such a token takes more are whole tokens that open no url.
-/

namespace Relength.Token

variable {c : Char} {r r' : Text} {t : Token}

/-- The last character is a letter or a digit. -/
def EndsAlphanum (w : Text) : Prop := ∃ a c, w = a ++ [c] ∧ c.isAlphanum = true

/-- A token that is a number, or a name, or a number with a name behind it. -/
inductive Word : Text → Token → Text → Prop where
  | number {s number r : Text} (hs : startsNumber s = true) (hspan : numberSpan s = (number, r)) :
    Word s ⟨.number, number⟩ r
  | dimension {s number u r : Text} {n : Name} (hs : startsNumber s = true)
    (hspan : numberSpan s = (number, u)) (hstarts : startsName u = true) (hname : name u = (n, r)) :
    Word s ⟨.dimension n.value, number ++ n.source⟩ r
  | ident {s r : Text} {n : Name} (hs : startsNumber s = false) (hstarts : startsName s = true)
    (hname : name s = (n, r)) : Word s ⟨.ident n.value, n.source⟩ r
  | atKeyword {s r : Text} {n : Name} (hstarts : startsName s = true) (hname : name s = (n, r)) :
    Word ('@' :: s) ⟨.atKeyword n.value, '@' :: n.source⟩ r
  | hash {s r : Text} {n : Name} (hstarts : startsHash s = true) (hname : name s = (n, r)) :
    Word ('#' :: s) ⟨.hash n.value, '#' :: n.source⟩ r

theorem EndsAlphanum.last {a : Text} (h : EndsAlphanum (a ++ [c])) : c.isAlphanum = true := by
  obtain ⟨b, d, heq, hd⟩ := h
  obtain ⟨-, hcd⟩ := List.append_inj' heq rfl
  rwa [(List.cons.inj hcd).1]

theorem EndsAlphanum.not_closed {w : Text} (h : EndsAlphanum w) : ¬EndsClosed w := by
  rintro ⟨a, c, rfl, hc⟩
  have halnum := h.last
  simp only [isCloser, List.contains_iff_mem, List.mem_cons, List.not_mem_nil, or_false] at hc
  rcases hc with rfl | rfl | rfl | rfl <;> cases halnum

/-- A letter or a digit starts a name or a number. -/
theorem starts_of_isAlphanum (hc : c.isAlphanum = true) (r : Text) :
    startsNumber (c :: r) = true ∨ startsName (c :: r) = true := by
  simp only [Char.isAlphanum, Bool.or_eq_true] at hc
  rcases hc with hc | hc
  · exact .inr (startsName_alpha hc r)
  · have hpoint : c ≠ '.' := ne_of_isDigit hc rfl
    exact .inl (by simp [startsNumber, not_sign_of_isDigit hc, startsUnsigned, hpoint, hc])

section Ends

variable {s u : Text} {d : Char} (hd : isNewline d = false) (ht : EndsAlphanum t.source)

include ht

theorem word_numeric (hs : startsNumber s = true) (h : numeric s = (t, r)) : Word s t r := by
  cases numeric_cases h with
  | percentage htoken =>
    rw [htoken] at ht
    cases ht.last
  | dimension hstarts htoken hr =>
    subst htoken
    exact .dimension hs rfl hstarts (Prod.ext rfl hr)
  | number _ _ htoken hr =>
    subst htoken
    exact .number hs (Prod.ext rfl hr)

include hd

theorem word_identLike (hs : startsNumber s = false) (hstarts : startsName s = true)
    (h : identLike s = (t, d :: u)) : Word s t (d :: u) := by
  cases identLike_cases h with
  | ident _ htoken hr =>
    subst htoken
    exact .ident hs hstarts (Prod.ext rfl hr)
  | function _ _ htoken =>
    rw [htoken] at ht
    cases ht.last
  | @url x hx _ _ hbody =>
    -- A url that leaves some text has been closed.
    have happend := identLike_append s
    have hname := name_append s
    rw [h] at happend
    rw [hx] at hname
    have hrest : (urlBody (x.dropWhile isSpace)).2 = d :: u := congrArg Prod.snd hbody
    obtain ⟨v, -, hv⟩ := exists_left (y := []) (leaves_urlSpace x) hrest
    have hends := (url_closed hv hd hrest).1
    have hsource : (name s).1.source ++ ['('] ++ v = t.source := by
      refine (List.append_left_inj (d :: u)).mp ?_
      rw [happend, List.append_assoc, ← hv, List.append_assoc]
      exact hname
    exact absurd (hsource ▸ hends.append _) ht.not_closed

theorem word_symbol (hs : startsNumber (c :: s) = false) (hstarts : startsName (c :: s) = false)
    (h : symbol c s = (t, d :: u)) : Word (c :: s) t (d :: u) := by
  have happend := symbol_append c s
  rw [h] at happend
  cases symbol_cases c s with
  | space hspace =>
    rw [symbol_space hspace] at h
    obtain ⟨a, e, hsource, he⟩ := ht
    have hmem : e ∈ t.source := by simp [hsource]
    rw [← (Prod.mk.inj h).1] at hmem
    have hspaces : isSpace e = true := by
      rcases List.mem_cons.mp hmem with rfl | hmem
      · exact hspace
      · exact List.mem_takeWhile_imp hmem
    rw [Lexer.isAlphanum_of_isSpace hspaces] at he
    cases he
  | quote hquote =>
    rw [symbol_quote hquote, prepend] at h
    obtain ⟨htoken, hrest⟩ := Prod.mk.inj h
    obtain ⟨v, -, hv⟩ := exists_left (y := []) (leaves_stringBody c s) hrest
    rw [hv] at hrest
    have hends := (closes_stringBody hquote v d u hd hrest).1
    have hsource : c :: v = t.source := by
      rw [hv] at happend
      exact ((List.append_left_inj (d :: u)).mp happend).symm
    exact absurd (hsource ▸ hends.cons c) ht.not_closed
  | atSign hc =>
    subst hc
    rw [symbol_at] at h
    split at h
    · next hname =>
      obtain ⟨rfl, hr⟩ := Prod.mk.inj h
      exact .atKeyword hname (Prod.ext rfl hr)
    · rw [← (Prod.mk.inj h).1] at ht
      cases ht.last (a := [])
  | hashSign hc =>
    subst hc
    rw [symbol_hash] at h
    split at h
    · next hname =>
      obtain ⟨rfl, hr⟩ := Prod.mk.inj h
      exact .hash hname (Prod.ext rfl hr)
    · rw [← (Prod.mk.inj h).1] at ht
      cases ht.last (a := [])
  | @comment hc v hv =>
    subst hc hv
    rw [symbol_comment] at h
    obtain ⟨htoken, hrest⟩ := Prod.mk.inj h
    obtain ⟨x, -, rfl⟩ := exists_left (y := []) (leaves_commentBody v) hrest
    have hends := (closes_commentBody x d u hd hrest).1
    have hsource : '/' :: '*' :: x = t.source :=
      ((List.append_left_inj (d :: u)).mp happend).symm
    exact absurd (hsource ▸ hends.append ['/', '*']) ht.not_closed
  | @cdo hc v hv =>
    subst hc hv
    rw [← (Prod.mk.inj h).1] at ht
    cases ht.last (a := ['<', '!', '-'])
  | @attributeMatch hc v hv =>
    rw [hv, symbol_match hc] at h
    rw [← (Prod.mk.inj h).1] at ht
    cases ht.last (a := [c])
  | single halone =>
    rw [symbol_single halone] at h
    rw [← (Prod.mk.inj h).1] at ht
    rcases starts_of_isAlphanum (ht.last (a := [])) s with hnumber | hname
    · rw [hs] at hnumber
      cases hnumber
    · rw [hstarts] at hname
      cases hname

/-- A token that ends with a letter or a digit is a word. -/
theorem exists_word (h : next? s = some (t, d :: u)) : Word s t (d :: u) := by
  cases next?_cases h with
  | cdc htoken =>
    rw [htoken] at ht
    cases ht.last (a := ['-', '-'])
  | numeric hs h => exact word_numeric ht hs h
  | identLike hs hstarts h => exact word_identLike hd ht hs hstarts h
  | symbol hc hs hstarts hsymbol =>
    subst hc
    exact word_symbol hd ht hs hstarts hsymbol

end Ends

/-! ## Words in front of text with no name -/

/-- Behind such text no two texts are told apart in front of it. -/
def Shields (w : Text) : Prop :=
  EndsFinal w ∨ ∃ a c d, w = a ++ [c, d] ∧ c.isAlpha = true ∧ d.isAlpha = true

theorem alike_of_letters {d : Char} (hc : c.isAlpha = true) (hd : d.isAlpha = true) (r r' : Text) :
    Alike (c :: d :: r) (c :: d :: r') := by
  have hfirst (e : Char) (he : e.isAlpha = false) : c ≠ e := by
    rintro rfl
    rw [he] at hc
    cases hc
  have hsecond (e : Char) (he : e.isAlpha = false) : d ≠ e := by
    rintro rfl
    rw [he] at hd
    cases hd
  have hsign : (c == '+' || c == '-') = false := by simp [hfirst '+' rfl, hfirst '-' rfl]
  have hsign' : (d == '+' || d == '-') = false := by simp [hsecond '+' rfl, hsecond '-' rfl]
  refine ⟨.inl rfl, ?_, ?_, ?_, ?_, ?_, ?_, ?_⟩
  · simp [startsUnsigned, hfirst '.' rfl]
  · simp [startsNumber, hsign, startsUnsigned, hfirst '.' rfl]
  · rw [startsName_alpha hc, startsName_alpha hc]
  · rw [isEmpty_digits, isEmpty_digits, hsign]
    rfl
  · rw [isEmpty_exponentSpan, isEmpty_exponentSpan, isEmpty_digits, isEmpty_digits, hsign']
    rfl
  · rintro p hp ⟨y, hy⟩
    simp only [lookaheads, List.mem_cons, List.not_mem_nil, or_false] at hp
    have hhead := congrArg List.head? hy
    rcases hp with rfl | rfl | rfl | rfl | rfl | rfl <;>
      exact absurd (Option.some.inj hhead).symm (hfirst _ rfl)
  · have hspace : isSpace c = false := by
      simp [isSpace, isNewline, hfirst ' ' rfl, hfirst '\t' rfl, hfirst '\n' rfl, hfirst '\r' rfl,
        hfirst '\x0c' rfl]
    simp [hspace, startsQuote]

theorem Shields.alike {w : Text} (h : Shields w) (r r' : Text) : Alike (w ++ r) (w ++ r') := by
  rcases h with h | ⟨a, c, d, rfl, hc, hd⟩
  · exact h.alike r r'
  · rw [List.append_assoc, List.append_assoc]
    exact .append a (alike_of_letters hc hd r r')

/-- What shields goes on to do so if it is not cut off between two letters. -/
theorem Shields.of_append {a b : Text} (h : Shields (a ++ b)) (hb : b ≠ [])
    (hcut : ∀ x c d, a = x ++ [c] → b = [d] → c.isAlpha = true → d.isAlpha = false) :
    Shields b := by
  have hlast := List.dropLast_concat_getLast hb
  generalize b.dropLast = front at hlast
  generalize b.getLast hb = e at hlast
  subst hlast
  rw [← List.append_assoc] at h
  rcases h with ⟨x, c, heq, hc⟩ | ⟨x, c, d, heq, hc, hd⟩
  · obtain ⟨-, he⟩ := List.append_inj' heq rfl
    exact .inl ⟨front, e, rfl, by rwa [(List.cons.inj he).1]⟩
  · have hsplit : x ++ [c, d] = x ++ [c] ++ [d] := by simp
    rw [hsplit] at heq
    obtain ⟨hfront, he⟩ := List.append_inj' heq rfl
    obtain rfl := (List.cons.inj he).1
    rcases List.eq_nil_or_concat front with rfl | ⟨y, f, rfl⟩
    · rw [List.append_nil] at hfront
      rw [hcut x c e hfront rfl hc] at hd
      cases hd
    · rw [List.concat_eq_append, ← List.append_assoc] at hfront
      obtain ⟨-, hf⟩ := List.append_inj' hfront rfl
      obtain rfl := (List.cons.inj hf).1
      exact .inr ⟨y, f, e, by simp, hc, hd⟩

theorem Shields.of_sign {b : Text} (h : Shields (c :: b)) (hb : b ≠ []) (hc : c.isAlpha = false) :
    Shields b := by
  refine Shields.of_append (a := [c]) h hb ?_
  intro x d e hx _ hd
  rw [show x = [] by simpa using congrArg List.length hx, List.nil_append] at hx
  rw [← (List.cons.inj hx).1, hc] at hd
  cases hd

/-- Tokens that open no url, in front of the rest of a text. -/
def Skips (x rest : Text) : Prop :=
  ∃ vs, x = join vs ++ rest ∧ Lexes vs rest ∧ ∀ v ∈ vs, v.opensUrl = false

theorem Skips.refl (x : Text) : Skips x x := ⟨[], rfl, lexes_nil x, by simp⟩

theorem Skips.next? {x rest : Text} {v : Token} (h : Token.next? x = some (v, rest))
    (hv : v.opensUrl = false) : Skips x rest := by
  have happend := next?_append h
  refine ⟨[v], by simp [join, happend], lexes_cons_iff.mpr ⟨?_, lexes_nil rest⟩, by simpa using hv⟩
  change Token.next? (v.source ++ rest) = _
  rw [happend, h]
  rfl

theorem opensUrl_numeric (s : Text) : (numeric s).1.opensUrl = false := by
  unfold numeric
  dsimp only
  split
  · rfl
  · split <;> rfl

theorem numeric_rest {s s' : Text} (h : (numberSpan s).2 = (numberSpan s').2) :
    (numeric s).2 = (numeric s').2 := by
  by_cases hpercent : ∃ u, (numberSpan s).2 = ['%'] ++ u
  · obtain ⟨u, hu⟩ := hpercent
    rw [numeric_percent hu, numeric_percent (h ▸ hu)]
  · have hnone := not_exists.mp hpercent
    rw [numeric_eq hnone, numeric_eq (h ▸ hnone), h]
    split <;> rfl

theorem exists_fraction {x : Text} (h : startsFraction x = true) :
    ∃ d u, x = '.' :: d :: u ∧ d.isDigit = true := by
  unfold startsFraction at h
  split at h
  · exact ⟨_, _, rfl, h⟩
  · cases h

section Nameless

variable {x : Text} (hx : nameChars x = ([], x))

include hx

theorem quits_of_nameChars : Quits x := by
  cases x with
  | nil => rfl
  | cons c x =>
    have hc := (Lexer.nameChars_stop (c :: x) (congrArg Prod.snd hx)).1
    have hlower : c ≠ 'e' := by
      rintro rfl
      cases hc
    have hupper : c ≠ 'E' := by
      rintro rfl
      cases hc
    simp only [isNameChar, Bool.or_eq_false_iff] at hc
    simp [Quits, hc.1.2, hlower, hupper]

theorem skips_number {number : Text} (hnumber : IsNumber number) :
    Skips x (numeric (number ++ x)).2 := by
  by_cases hpoint : isWhole number = true ∧ startsFraction x = true
  · have hspan := hnumber.numberSpan_fraction hpoint.1 hpoint.2
    have hrest : (numeric (number ++ x)).2 = (numeric x).2 := numeric_rest (by rw [hspan])
    have hnext : Token.next? x = some (numeric x) := by
      obtain ⟨d, u, rfl, hd⟩ := exists_fraction hpoint.2
      have hstarts : startsNumber ('.' :: d :: u) = true := hd
      rw [next?_cons (fun h => by cases h), if_pos hstarts]
    rw [hrest]
    exact .next? hnext (opensUrl_numeric x)
  · have hspan : numberSpan (number ++ x) = (number, x) :=
      numberSpan_quits hnumber.numberSpan hnumber.ne_nil (quits_of_nameChars hx)
        (by simpa using hpoint)
    by_cases hpercent : ∃ u, x = ['%'] ++ u
    · obtain ⟨u, rfl⟩ := hpercent
      rw [numeric_percent (congrArg Prod.snd hspan)]
      have hsymbol : symbol '%' u = (⟨.delim '%', ['%']⟩, u) :=
        symbol_single ⟨rfl, by decide, by simp, by simp, by decide, by decide, by simp⟩
      have hnext : Token.next? ('%' :: u) = some (⟨.delim '%', ['%']⟩, u) := by
        rw [next?_cons (fun h => by cases h), hsymbol]
        rfl
      exact .next? hnext rfl
    · have hnone : ∀ u, (numberSpan (number ++ x)).2 ≠ ['%'] ++ u := by
        rw [hspan]
        exact not_exists.mp hpercent
      rw [numeric_eq hnone, hspan, startsName_of_nameChars hx]
      exact .refl x

end Nameless


section Read

variable {x : Text} (hx : nameChars x = ([], x))

include hx

/-- A name behind which the lexer is in a word that is stuck is the same in front of a text that
does not go on with it. -/
theorem name_of_stuck {n : Name} {url : Option Nat}
    (h : name (n.source ++ ';' :: r) = (n, ';' :: r))
    (hstuck : (Lexer.run (.plain (.word url)) n.source).1 = Lexer.stuck) :
    name (n.source ++ x) = (n, x) := by
  obtain ⟨hn, hrest⟩ := Prod.mk.inj h
  have hchars :
      nameChars (n.source ++ ';' :: r) = ((nameChars (n.source ++ ';' :: r)).1, ';' :: r) :=
    Prod.ext rfl hrest
  rcases nameChars_finished hchars (by simp) with hfinished | ⟨-, hrun⟩
  · rw [name, hfinished x hx]
    exact Prod.ext hn rfl
  · exact absurd hstuck (hrun url _)

end Read

/-- Such a name is not `url`: the lexer would know. -/
theorem not_url_of_stuck {n : Name} (h : name (n.source ++ ';' :: r) = (n, ';' :: r))
    (hstuck : (Lexer.run Lexer.fresh n.source).1 = Lexer.stuck) :
    Text.eqIgnoringCase n.value ['u', 'r', 'l'] = false := by
  have hopen : nameChars ['(', ';'] = ([], ['(', ';']) := nameChars_of_stop rfl fun h => by cases h
  have hscans : Lexer.Scans Lexer.fresh (name (n.source ++ ['(', ';'])).1.source []
      (.plain ((Lexer.Context.word (some 0)).advanceAll (name (n.source ++ ['(', ';'])).1.value))
      (name (n.source ++ ['(', ';'])).2 := Lexer.scans_nameChars (some 0) _
  rw [name_of_stuck hopen h hstuck] at hscans
  by_contra hurl
  rw [(Lexer.advanceAll_eq_url_iff n.value).mpr (by simpa using hurl)] at hscans
  -- Behind `url(` the semicolon would not be a token.
  have hmarks := congrArg List.length (hscans.marks_eq ['(', ';'] [] rfl)
  have hone : Lexer.marks (.plain (.word (some 3))) ['(', ';'] = [.opening .round] := by decide
  have htwo : (Lexer.run Lexer.stuck ['(', ';']).2 = [.opening .round, .semicolon] := by decide
  rw [hone, Lexer.marks, Lexer.run_append, hstuck, htwo] at hmarks
  simp at hmarks

section Read

variable {x : Text} (hx : nameChars x = ([], x))

include hx

theorem read_number {number : Text} (hs : startsNumber (number ++ ';' :: r) = true)
    (hspan : numberSpan (number ++ ';' :: r) = (number, ';' :: r)) :
    Skips x (numeric (number ++ x)).2 := by
  refine skips_number hx ⟨?_, congrArg Prod.snd (numberSpan_self hspan)⟩
  rwa [startsNumber_end (by decide)] at hs

theorem read_dimension {number : Text} {n : Name}
    (hs : startsNumber (number ++ n.source ++ ';' :: r) = true)
    (hspan : numberSpan (number ++ n.source ++ ';' :: r) = (number, n.source ++ ';' :: r))
    (hstarts : startsName (n.source ++ ';' :: r) = true)
    (hname : name (n.source ++ ';' :: r) = (n, ';' :: r))
    (hstuck : (Lexer.run Lexer.fresh (number ++ n.source)).1 = Lexer.stuck)
    (hshields : Shields (number ++ n.source)) :
    Skips x (numeric (number ++ n.source ++ x)).2 := by
  have hne : n.source ≠ [] := by
    have := name_ne_nil hstarts
    rwa [hname] at this
  have hneutral : Lexer.Neutral number := by
    have := Lexer.neutral_numberSpan hs
    rwa [hspan] at this
  have halike : Alike (n.source ++ ';' :: r) (n.source ++ x) := by
    refine (hshields.of_append hne ?_).alike _ _
    intro a c d ha _ hc
    have hdigit := Lexer.endsInDigit_numberSpan hs
    rw [hspan] at hdigit
    obtain ⟨b, e, hb, he⟩ : Lexer.EndsInDigit number := hdigit
    obtain ⟨-, hlast⟩ := List.append_inj' (ha.symm.trans hb) rfl
    rw [(List.cons.inj hlast).1, isAlpha_of_isDigit he] at hc
    cases hc
  have hrun : (Lexer.run Lexer.stuck n.source).1 = Lexer.stuck := by
    rwa [Lexer.run_append, Lexer.fresh, Lexer.run_neutral _ hneutral] at hstuck
  rw [List.append_assoc] at hspan ⊢
  have hspan' : numberSpan (number ++ (n.source ++ x)) = (number, n.source ++ x) := by
    have := local_numberSpan number [] _ _ halike (congrArg Prod.snd hspan)
    rw [this, hspan]
    rfl
  have hstarts' : startsName (n.source ++ x) = true := halike.name ▸ hstarts
  have hnone : ∀ u, (numberSpan (number ++ (n.source ++ x))).2 ≠ ['%'] ++ u := by
    rw [hspan']
    intro u hu
    have hpercent : n.source ++ x = ['%'] ++ u := hu
    rw [hpercent] at hstarts'
    cases hstarts'
  rw [numeric_eq hnone, hspan', if_pos hstarts', name_of_stuck hx hname hrun]
  exact .refl x

theorem read_ident {n : Name} (hname : name (n.source ++ ';' :: r) = (n, ';' :: r))
    (hstuck : (Lexer.run Lexer.fresh n.source).1 = Lexer.stuck) :
    Skips x (identLike (n.source ++ x)).2 := by
  have hname' := name_of_stuck hx hname hstuck
  by_cases hopen : ∃ u, x = ['('] ++ u
  · obtain ⟨u, rfl⟩ := hopen
    rw [identLike_open (congrArg Prod.snd hname'), hname', not_url_of_stuck hname hstuck]
    exact .next? (next?_stop rfl u) rfl
  · rw [identLike_ident (by rw [hname']; exact not_exists.mp hopen), hname']
    exact .refl x

theorem read_atKeyword {n : Name} (hstarts : startsName (n.source ++ ';' :: r) = true)
    (hname : name (n.source ++ ';' :: r) = (n, ';' :: r))
    (hstuck : (Lexer.run Lexer.fresh ('@' :: n.source)).1 = Lexer.stuck)
    (hshields : Shields ('@' :: n.source)) :
    Skips x (symbol '@' (n.source ++ x)).2 := by
  have hne : n.source ≠ [] := by
    have := name_ne_nil hstarts
    rwa [hname] at this
  have halike : Alike (n.source ++ ';' :: r) (n.source ++ x) :=
    (hshields.of_sign hne rfl).alike _ _
  have hstarts' : startsName (n.source ++ x) = true := halike.name ▸ hstarts
  rw [symbol_at, if_pos hstarts', name_of_stuck hx hname hstuck]
  exact .refl x

theorem read_hash {n : Name} (hstarts : startsHash (n.source ++ ';' :: r) = true)
    (hname : name (n.source ++ ';' :: r) = (n, ';' :: r))
    (hstuck : (Lexer.run Lexer.fresh ('#' :: n.source)).1 = Lexer.stuck)
    (hshields : Shields ('#' :: n.source)) :
    Skips x (symbol '#' (n.source ++ x)).2 := by
  have hne : n.source ≠ [] := by
    rintro hnil
    rw [hnil] at hstarts
    cases hstarts
  have halike : Alike (n.source ++ ';' :: r) (n.source ++ x) :=
    (hshields.of_sign hne rfl).alike _ _
  have hstarts' : startsHash (n.source ++ x) = true := by
    obtain ⟨c, s, hs⟩ := List.exists_cons_of_ne_nil hne
    rw [startsHash, halike.name, hs] at hstarts
    rw [startsHash, hs]
    exact hstarts
  rw [symbol_hash, if_pos hstarts', name_of_stuck hx hname hstuck]
  exact .refl x

/-- A word in front of a semicolon, where the lexer is in a word that is stuck, may take more of a
text with no name at its start, but only whole tokens that open no url. -/
theorem exists_read (h : next? (t.source ++ ';' :: r) = some (t, ';' :: r))
    (ht : EndsAlphanum t.source) (hstuck : (Lexer.run Lexer.fresh t.source).1 = Lexer.stuck)
    (hshields : Shields t.source) :
    ∃ t' rest, next? (t.source ++ x) = some (t', rest) ∧ Skips x rest := by
  have hword := exists_word (by decide) ht h
  have halike := hshields.alike (';' :: r) x
  obtain ⟨c, w, hw⟩ := List.exists_cons_of_ne_nil (next?_source_ne_nil h)
  have hcdc : ∀ u, t.source ++ ';' :: r ≠ ['-', '-', '>'] ++ u := by
    intro u hu
    rw [hu] at h
    rw [← (Prod.mk.inj (Option.some.inj h)).1] at ht
    cases ht.last (a := ['-', '-'])
  have hscan : next? (t.source ++ x) =
      some (if startsNumber (t.source ++ ';' :: r) then numeric (t.source ++ x)
        else if startsName (t.source ++ ';' :: r) then identLike (t.source ++ x)
        else symbol c (w ++ x)) := by
    rw [hw] at halike hcdc ⊢
    exact next?_of_alike halike hcdc
  generalize hs : t.source ++ ';' :: r = s at hword hscan
  cases hword with
  | number hnumber hspan =>
    subst hs
    rw [if_pos hnumber] at hscan
    exact ⟨_, _, hscan, read_number hx hnumber hspan⟩
  | @dimension _ number u _ n hnumber hspan hstarts hname =>
    subst hs
    rw [if_pos hnumber] at hscan
    have happend := numberSpan_append (number ++ n.source ++ ';' :: r)
    rw [hspan, List.append_assoc] at happend
    obtain rfl := List.append_cancel_left happend
    exact ⟨_, _, hscan, read_dimension hx hnumber hspan hstarts hname hstuck hshields⟩
  | ident hnumber hstarts hname =>
    subst hs
    rw [hnumber, if_neg Bool.false_ne_true, if_pos hstarts] at hscan
    exact ⟨_, _, hscan, read_ident hx hname hstuck⟩
  | atKeyword hstarts hname =>
    obtain rfl := (List.cons.inj hs).2
    obtain ⟨rfl, rfl⟩ := List.cons.inj hw
    exact ⟨_, _, hscan, read_atKeyword hx hstarts hname hstuck hshields⟩
  | hash hstarts hname =>
    obtain rfl := (List.cons.inj hs).2
    obtain ⟨rfl, rfl⟩ := List.cons.inj hw
    exact ⟨_, _, hscan, read_hash hx hstarts hname hstuck hshields⟩

end Read

end Relength.Token
