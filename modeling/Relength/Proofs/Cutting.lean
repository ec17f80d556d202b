import Relength.Proofs.Exchange
import Relength.Proofs.Respelling.Values

/-!
# Values cut out of a text

A value is cut out of its item by Unicode white space and by `!important`, and then cut into tokens
by itself. Some white space of Unicode is a character of a name to a token, so a token may be cut
through. `Text.Parted` says where this does not matter. The lengths that are then found in the value
are lengths of the whole item.

* `Token.exists_blanks`: no token goes on from the blanks in front of a value into it;
* `Exchanged.replacePx`: a value with its lengths replaced, in the place of the value.
-/

namespace Relength

open Token

/-! ## Cutting blanks off -/

/-- White space to Unicode, but a character of a name to a token. -/
def Text.isForeign (c : Char) : Bool := isBlank c && isNameChar c

/-- Some character goes on with a name in front of it. -/
def Token.extendsName (c : Char) : Bool := isNameChar c || c == '\\' || c == '('

/-- Where blanks are cut off from a text, no token is cut through that would matter: no foreign
blank stands directly behind a `px`, and none directly in front of what goes on with a name. -/
structure Text.Parted (s : Text) : Prop where
  behind : ∀ a c b, s = a ++ px ++ c :: b → isForeign c = false
  front : ∀ a c d b, s = a ++ c :: d :: b → isForeign c = true → isBlank d = true ∨
    extendsName d = false

theorem Text.Parted.of_infix {s t : Text} (h : s.Parted) (ht : t <:+: s) : t.Parted := by
  obtain ⟨x, y, rfl⟩ := ht
  refine ⟨fun a c b hs => h.behind (x ++ a) c (b ++ y) ?_,
    fun a c d b hs => h.front (x ++ a) c d (b ++ y) ?_⟩
  · simp [hs]
  · simp [hs]

theorem ne_of_isBlank {c d : Char} (hc : Text.isBlank c = true) (hd : Text.isBlank d = false) :
    c ≠ d := by
  rintro rfl
  rw [hc] at hd
  cases hd

theorem isSpace_of_not_isBlank {c : Char} (hc : Text.isBlank c = false) : isSpace c = false := by
  have hne {d : Char} (hd : Text.isBlank d = true) : c ≠ d := fun h => ne_of_isBlank hd hc h.symm
  simp [isSpace, isNewline, hne (d := ' ') rfl, hne (d := '\t') rfl, hne (d := '\n') rfl,
    hne (d := '\r') rfl, hne (d := '\x0c') rfl]

namespace Token

section Blank

variable {c : Char} (hc : Text.isBlank c = true)

include hc

theorem not_isDigit_of_isBlank : c.isDigit = false := by
  by_contra hd
  rw [Text.isBlank_of_isPlain (Lexer.isPlain_of_isDigit (by simpa using hd))] at hc
  cases hc

theorem startsNumber_of_isBlank (s : Text) : startsNumber (c :: s) = false := by
  have hplus : (c == '+') = false := by simpa using ne_of_isBlank hc (d := '+') rfl
  have hminus : (c == '-') = false := by simpa using ne_of_isBlank hc (d := '-') rfl
  have hpoint : c ≠ '.' := ne_of_isBlank hc rfl
  simp [startsNumber, hplus, hminus, startsUnsigned, hpoint, not_isDigit_of_isBlank hc]

theorem startsName_of_isBlank (s : Text) : startsName (c :: s) = isNameChar c := by
  have hminus : c ≠ '-' := ne_of_isBlank hc rfl
  have hback : c ≠ '\\' := ne_of_isBlank hc rfl
  have hstarts : startsName (c :: s) = isNameStart c := by
    unfold startsName
    split <;> simp_all
  simp [hstarts, isNameChar, hminus, not_isDigit_of_isBlank hc]

theorem single_of_isBlank : single c = .delim c := by
  have hne {d : Char} (hd : Text.isBlank d = false) : (c == d) = false := by
    simpa using ne_of_isBlank hc hd
  simp only [single, hne (d := ':') rfl, hne (d := ';') rfl, hne (d := ',') rfl,
    hne (d := '(') rfl, hne (d := '[') rfl, hne (d := '{') rfl, hne (d := ')') rfl,
    hne (d := ']') rfl, hne (d := '}') rfl, Bool.false_eq_true, if_false]

theorem symbol_of_isBlank (hs : isSpace c = false) (s : Text) :
    symbol c s = (⟨.delim c, [c]⟩, s) := by
  have hne {d : Char} (hd : Text.isBlank d = false) : c ≠ d := ne_of_isBlank hc hd
  have hmatch : c ∉ ['~', '|', '^', '$', '*'] := by
    simp [hne (d := '~') rfl, hne (d := '|') rfl, hne (d := '^') rfl, hne (d := '$') rfl,
      hne (d := '*') rfl]
  have halone : StandsAlone c s :=
    { space := hs
      quote := not_or.mpr ⟨hne rfl, hne rfl⟩
      comment := fun h => absurd h (hne rfl)
      cdo := fun h => absurd h (hne rfl)
      atSign := hne rfl
      hashSign := hne rfl
      attributeMatch := fun h => absurd h hmatch }
  rw [symbol_single halone, single_of_isBlank hc]

end Blank

/-- Behind blanks comes what is no blank, and what does not go on with a name if the last blank is a
foreign one. -/
structure Behind (g x : Text) : Prop where
  blank : ∀ c ∈ g, Text.isBlank c = true
  head : ∀ c ∈ x.head?, Text.isBlank c = false
  foreign : ∀ g' c, g = g' ++ [c] → Text.isForeign c = true → ∀ d ∈ x.head?, extendsName d = false

theorem Behind.suffix {a g x : Text} (h : Behind (a ++ g) x) : Behind g x where
  blank := fun c hc => h.blank c (List.mem_append_right a hc)
  head := h.head
  foreign := by
    rintro g' c rfl hc
    exact h.foreign (a ++ g') c (by simp) hc

theorem nameChars_of_not_extendsName {x : Text} (h : ∀ d ∈ x.head?, extendsName d = false) :
    nameChars x = ([], x) ∧ x.head? ≠ some '(' := by
  rcases x with _ | ⟨d, x⟩
  · exact ⟨by rw [nameChars], by simp⟩
  · have hd := h d rfl
    simp only [extendsName, Bool.or_eq_false_iff, beq_eq_false_iff_ne] at hd
    obtain ⟨⟨hname, hback⟩, hopen⟩ := hd
    exact ⟨nameChars_of_stop hname fun h => absurd h hback, by simpa using hopen⟩

/-- A name stops in blanks or behind them. -/
theorem nameChars_blanks {g x : Text} (h : Behind g x) (hne : g ≠ []) :
    ∃ g', (nameChars (g ++ x)).2 = g' ++ x ∧ (g' ++ x).head? ≠ some '(' := by
  induction g with
  | nil => exact absurd rfl hne
  | cons c g ih =>
    have hc := h.blank c (by simp)
    have hback : (c == '\\') = false := by simpa using ne_of_isBlank hc (d := '\\') rfl
    by_cases hname : isNameChar c = true
    · have hchars : (nameChars (c :: g ++ x)).2 = (nameChars (g ++ x)).2 := by
        rw [List.cons_append, nameChars]
        simp [hback, hname]
      rcases g with _ | ⟨d, g⟩
      · obtain ⟨hx, hopen⟩ := nameChars_of_not_extendsName
          (h.foreign [] c rfl (by simp [Text.isForeign, hc, hname]))
        refine ⟨[], ?_, hopen⟩
        rw [hchars]
        exact congrArg Prod.snd hx
      · rw [hchars]
        exact ih (h.suffix (a := [c])) (by simp)
    · refine ⟨c :: g, ?_, ?_⟩
      · have hstop : isNameChar c = false := by simpa using hname
        rw [List.cons_append, nameChars_of_stop hstop fun hb => by simp [hb] at hback]
      · simpa using ne_of_isBlank hc (d := '(') rfl

theorem dropWhile_blanks (g : Text) {x : Text} (hx : ∀ c ∈ x.head?, Text.isBlank c = false) :
    ∃ g', (g ++ x).dropWhile isSpace = g' ++ x := by
  induction g with
  | nil =>
    refine ⟨[], ?_⟩
    rcases x with _ | ⟨c, x⟩
    · rfl
    · simp [isSpace_of_not_isBlank (hx c rfl)]
  | cons c g ih =>
    by_cases hc : isSpace c = true
    · simpa [hc] using ih
    · exact ⟨c :: g, by simp [hc]⟩

/-- The first token of blanks ends in them, and opens nothing. -/
theorem next?_blanks {g x y : Text} {t : Token} (h : Behind g x) (hne : g ≠ [])
    (ht : next? (g ++ x) = some (t, y)) :
    (∃ g', g = t.source ++ g' ∧ y = g' ++ x) ∧ t.opens? = none := by
  have hcut : (∃ g', y = g' ++ x) ∧ t.opens? = none := by
    obtain ⟨c, g, rfl⟩ := List.exists_cons_of_ne_nil hne
    have hc := h.blank c (by simp)
    rw [List.cons_append, next?_cons (fun hminus => absurd hminus (ne_of_isBlank hc rfl)),
      startsNumber_of_isBlank hc, startsName_of_isBlank hc] at ht
    have ht := Option.some.inj ht
    simp only [Bool.false_eq_true, if_false] at ht
    split at ht
    · obtain ⟨g', hg', hopen⟩ := nameChars_blanks h hne
      rw [List.cons_append] at hg'
      have hname : (name (c :: (g ++ x))).2 = g' ++ x := hg'
      rw [identLike_ident] at ht
      · obtain ⟨rfl, rfl⟩ := Prod.mk.inj ht
        exact ⟨⟨g', hname⟩, rfl⟩
      · intro u hu
        rw [hname] at hu
        exact hopen (by rw [hu]; rfl)
    · by_cases hs : isSpace c = true
      · rw [symbol_space hs] at ht
        obtain ⟨rfl, rfl⟩ := Prod.mk.inj ht
        exact ⟨dropWhile_blanks g h.head, rfl⟩
      · rw [symbol_of_isBlank hc (by simpa using hs)] at ht
        obtain ⟨rfl, rfl⟩ := Prod.mk.inj ht
        exact ⟨⟨g, rfl⟩, rfl⟩
  obtain ⟨⟨g', rfl⟩, hopens⟩ := hcut
  refine ⟨⟨g', ?_, rfl⟩, hopens⟩
  have happend := next?_append ht
  rw [← List.append_assoc] at happend
  exact (List.append_cancel_right happend).symm

/-- No token goes on from blanks into what follows them. -/
theorem exists_blanks {vs : List Token} {g w rest : Text} (hvs : Lexes vs rest)
    (hjoin : join vs = g ++ w) (hw : w ≠ []) (h : Behind g w) :
    ∃ gs ws, vs = gs ++ ws ∧ join gs = g ∧ join ws = w ∧ ∀ t ∈ gs, t.opens? = none := by
  induction vs generalizing g with
  | nil =>
    obtain ⟨-, rfl⟩ := List.append_eq_nil_iff.mp hjoin.symm
    exact absurd rfl hw
  | cons t vs ih =>
    by_cases hg : g = []
    · subst hg
      exact ⟨[], t :: vs, rfl, rfl, hjoin, by simp⟩
    · obtain ⟨hnext, hvs⟩ := lexes_cons_iff.mp hvs
      have hbehind : Behind g (w ++ rest) := by
        obtain ⟨d, w, rfl⟩ := List.exists_cons_of_ne_nil hw
        exact ⟨h.blank, h.head, h.foreign⟩
      rw [← List.append_assoc, ← join_cons, hjoin, List.append_assoc] at hnext
      obtain ⟨⟨g', rfl, hy⟩, hopens⟩ := next?_blanks hbehind hg hnext
      rw [← List.append_assoc] at hy
      obtain ⟨gs, ws, rfl, rfl, hws, hall⟩ := ih hvs (List.append_cancel_right hy) h.suffix
      exact ⟨t :: gs, ws, rfl, join_cons t gs, hws, by simpa [hopens] using hall⟩

/-- Tokens that come first in front of some text are the first of all tokens of the text. -/
theorem Lexes.exists_append {ts us : List Token} {x rest : Text} (hts : Lexes ts (x ++ rest))
    (hus : Lexes us rest) (h : join us = join ts ++ x) : ∃ ws, us = ts ++ ws ∧ join ws = x := by
  induction ts generalizing us with
  | nil => exact ⟨us, rfl, h⟩
  | cons t ts ih =>
    obtain ⟨hnext, hts⟩ := lexes_cons_iff.mp hts
    rw [join_cons, List.append_assoc] at h
    rcases us with _ | ⟨u, us⟩
    · exact absurd (List.append_eq_nil_iff.mp h.symm).1 (next?_source_ne_nil hnext)
    · obtain ⟨hnext', hus'⟩ := lexes_cons_iff.mp hus
      rw [← List.append_assoc, ← join_cons, h] at hnext'
      simp only [List.append_assoc] at hnext hnext'
      obtain ⟨rfl, hrest⟩ := Prod.mk.inj (Option.some.inj (hnext.symm.trans hnext'))
      rw [← List.append_assoc] at hrest
      obtain ⟨ws, rfl, hws⟩ := ih hts hus' (List.append_cancel_right hrest).symm
      exact ⟨ws, rfl, hws⟩

theorem encloseAll_of_none {ts : List Token} (h : ∀ t ∈ ts, t.opens? = none) :
    encloseAll [] ts = [] := by
  induction ts with
  | nil => rfl
  | cons t ts ih =>
    have ht : t.enclose [] = [] := by simp [enclose, h t (by simp)]
    rw [encloseAll, List.foldl_cons, ht]
    exact ih fun u hu => h u (by simp [hu])

end Token

/-- Tokens that close nothing that is open around them. -/
def Token.Inside (outer ts : List Token) : Prop :=
  ∀ front back, ts = front ++ back → encloseAll outer front = encloseAll [] front ++ outer

theorem Token.Inside.of_append {outer a b : List Token} (h : Inside outer (a ++ b))
    (ha : encloseAll [] a = []) : Inside outer b := by
  rintro front back rfl
  have hfront := h (a ++ front) back (by simp)
  have houter := h a (front ++ back) rfl
  rw [ha, List.nil_append] at houter
  rwa [encloseAll_append, encloseAll_append, houter, ha] at hfront

/-- Behind text where a name stops, it stops in front of more text. -/
theorem Token.nameChars_append {x : Text} (h : nameChars x = ([], x)) (hx : x ≠ []) (y : Text) :
    nameChars (x ++ y) = ([], x ++ y) := by
  obtain ⟨c, x, rfl⟩ := List.exists_cons_of_ne_nil hx
  obtain ⟨hc, hb⟩ := Lexer.nameChars_stop (c :: x) (congrArg Prod.snd h)
  refine nameChars_of_stop hc fun hback => ?_
  have hnewline := hb hback
  cases x with
  | nil => cases hnewline
  | cons d x => exact hnewline

namespace Text.Parted

/-- A name stops behind a `px` at the end of a value. -/
theorem nameChars_behind {a e rest : Text} (h : Parted (a ++ px ++ e))
    (he : ∀ c ∈ e.head?, isBlank c = true ∨ c = '!') (hrest : nameChars rest = ([], rest)) :
    nameChars (e ++ rest) = ([], e ++ rest) := by
  rcases e with _ | ⟨c, e⟩
  · exact hrest
  · rcases he c rfl with hc | rfl
    · have hname : isNameChar c = false := by
        simpa [isForeign, hc] using h.behind a c e rfl
      refine nameChars_of_stop hname fun hback => ?_
      exact absurd hback (ne_of_isBlank hc rfl)
    · exact nameChars_of_stop (by decide) (by simp)

end Text.Parted

/-- The tokens of a value up to a length in it are tokens of the item that it is cut out of, where
it ends. -/
theorem Token.Lexes.exists_front {ws front back : List Token} {t : Token} {v e rest number : Text}
    (hws : Lexes ws rest) (hjoin : join ws = v ++ e) (hv : tokenize v = front ++ [t] ++ back)
    (hpx : t.pxNumber? = some number) (hplain : '\\' ∉ number)
    (he : ∀ c ∈ e.head?, Text.isBlank c = true ∨ c = '!') (hrest : nameChars rest = ([], rest))
    (hparted : (join ws).Parted) :
    ∃ ws', ws = front ++ [t] ++ ws' ∧ join ws' = join back ++ e := by
  have hlexes : Lexes (front ++ [t] ++ back) [] := hv ▸ lexes_tokenize v
  obtain ⟨hfront, -⟩ := lexes_append_iff.mp hlexes
  have htext : v = join (front ++ [t]) ++ join back := by
    rw [← join_append, ← hv, join_tokenize]
  have hstop : nameChars (join back ++ (e ++ rest)) = ([], join back ++ (e ++ rest)) := by
    by_cases hback : join back = []
    · have hend : join front ++ number ++ px ++ e = join ws := by
        rw [hjoin, htext, hback, join_append, List.append_nil, List.append_assoc (join front),
          append_px_of_pxNumber? hpx]
        simp [join]
      rw [hback, List.nil_append]
      exact (hend ▸ hparted).nameChars_behind he hrest
    · refine nameChars_append ?_ hback _
      have hnext := (lexes_cons_iff.mp (lexes_append_iff.mp hfront).2).1
      simpa [join] using (exists_number hnext hpx hplain).2.2.2
  have hfront' := hfront.exchange_length hpx hplain hstop
  rw [← List.append_assoc] at hfront'
  exact hfront'.exists_append hws (by rw [hjoin, htext, List.append_assoc])

/-- The tokens of an item, with the lengths of the value in it replaced: lengths of the value are
lengths of the item, and a url around them in the item is one in the value. -/
theorem Exchanged.replacePx {f : Text → Text}
    (hf : ∀ number, '\\' ∈ number → f number = number ++ px) {outer vs : List Token}
    {g v e rest : Text} (hvs : Lexes vs rest) (hjoin : join vs = g ++ v ++ e)
    (hg : ∀ c ∈ g, Text.isBlank c = true) (hv : ∀ c ∈ v.head?, Text.isBlank c = false)
    (he : ∀ c ∈ e.head?, Text.isBlank c = true ∨ c = '!') (hrest : nameChars rest = ([], rest))
    (hparted : (join vs).Parted) (hurl : outer.any opensUrl = false) (hinside : Inside outer vs) :
    Exchanged f outer vs (g ++ Relength.replacePx f v ++ e) := by
  have hkept : Exchanged f outer vs (g ++ v ++ e) := hjoin ▸ .refl vs
  rcases v with _ | ⟨d, v⟩
  · exact hkept
  have hbehind : Behind g (d :: v ++ e) := by
    refine ⟨hg, hv, ?_⟩
    rintro g' c rfl hc d' hd'
    obtain rfl := Option.mem_some_iff.mp hd'
    have hfront := hparted.front g' c d (v ++ e) (by simp [hjoin]) hc
    rw [hv d rfl] at hfront
    exact hfront.resolve_left Bool.false_ne_true
  obtain ⟨gs, ws, rfl, rfl, hws, hgs⟩ :=
    exists_blanks hvs (hjoin.trans (List.append_assoc ..)) (by simp) hbehind
  have hnone : encloseAll [] gs = [] := encloseAll_of_none hgs
  have houter : encloseAll outer gs = outer := by
    have := hinside gs ws rfl
    rwa [hnone] at this
  rw [Token.replacePx_eq_exchange]
  rcases exists_last_hot f [] (tokenize (d :: v)) with
    hexchange | ⟨front, t, back, hsplit, hhot, hexchange⟩
  · rwa [hexchange, join_tokenize]
  obtain ⟨-, number, hpx, hne⟩ := hhot
  have hplain : '\\' ∉ number := fun hmem =>
    hne ((hf number hmem).trans (append_px_of_pxNumber? hpx))
  have hparted' : (join ws).Parted := by
    refine hparted.of_infix ?_
    rw [join_append]
    exact (List.suffix_append _ _).isInfix
  have hsplit' : tokenize (d :: v) = front ++ [t] ++ back := by
    rw [hsplit, List.append_assoc, List.singleton_append]
  obtain ⟨ws', rfl, hws'⟩ := (lexes_append_iff.mp hvs).2.exists_front hws hsplit' hpx hplain he
    hrest hparted'
  have hinside' : Inside outer (front ++ [t] ++ ws') := hinside.of_append hnone
  have hmiddle : Exchanged f outer (front ++ [t]) (Token.exchange f [] (front ++ [t])) := by
    rw [← List.nil_append outer]
    refine Exchanged.exchange hurl fun front' back' hfront' => ?_
    exact hinside' front' (back' ++ ws') (by rw [hfront', List.append_assoc])
  have hgaps : Exchanged f outer gs (join gs) := .refl gs
  have hall := hgaps.append (houter.symm ▸ hmiddle.append (.refl ws'))
  rw [hws'] at hall
  rw [hexchange]
  simpa using hall

end Relength
