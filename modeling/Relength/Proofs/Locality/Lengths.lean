import Relength.Length.Px
import Relength.Proofs.Locality.Tokens

/-!
# Pixel lengths in front of other text

A pixel length whose number has no backslash in it is spelled as it looks: a number with `px` behind
it. It is a token in front of any text that does not go on with a name, and so are the tokens in
front of it.

* `Token.next?_length`, `Token.exists_number`: where such a length is the first token of a text;
* `Token.Lexes.exchange_length`: the text behind it can be exchanged.
-/

namespace Relength.Token

/-! ## Numbers in front of a character that is in none -/

/-- No number goes on with the character. -/
def endsNumber (c : Char) : Bool :=
  !(c.isDigit || c == '+' || c == '-' || c == '.' || c == 'e' || c == 'E')

theorem endsNumber_iff {c : Char} :
    endsNumber c = true ↔
      c.isDigit = false ∧ c ≠ '+' ∧ c ≠ '-' ∧ c ≠ '.' ∧ c ≠ 'e' ∧ c ≠ 'E' := by
  simp [endsNumber, and_assoc]

section Number

variable {c : Char} (hc : endsNumber c = true) (w r : Text)

include hc

theorem digitSpan_end :
    digitSpan (w ++ c :: r) = ((digitSpan w).1, (digitSpan w).2 ++ c :: r) := by
  induction w with
  | nil => simp [digitSpan, (endsNumber_iff.mp hc).1]
  | cons d w ih =>
    simp only [digitSpan, Prod.mk.injEq] at ih
    by_cases hd : d.isDigit = true
    · simp [digitSpan, hd, ih]
    · simp [digitSpan, hd]

theorem signSpan_end :
    signSpan (w ++ c :: r) = ((signSpan w).1, (signSpan w).2 ++ c :: r) := by
  obtain ⟨-, hplus, hminus, -⟩ := endsNumber_iff.mp hc
  rcases w with _ | ⟨d, w⟩
  · simp [signSpan, hplus, hminus]
  · by_cases hd : (d == '+' || d == '-') = true <;> simp [signSpan, hd]

theorem fractionSpan_end :
    fractionSpan (w ++ c :: r) = ((fractionSpan w).1, (fractionSpan w).2 ++ c :: r) := by
  obtain ⟨hdigit, -, -, hpoint, -⟩ := endsNumber_iff.mp hc
  rcases w with _ | ⟨d, w⟩
  · rw [List.nil_append, fractionSpan_of_ne hpoint]
    rfl
  · have hhead : (w ++ c :: r).head?.any Char.isDigit = w.head?.any Char.isDigit := by
      cases w <;> simp [hdigit]
    by_cases hd : d = '.'
    · subst hd
      rw [List.cons_append, fractionSpan_point, fractionSpan_point, hhead, digitSpan_end hc]
      split <;> rfl
    · rw [List.cons_append, fractionSpan_of_ne hd, fractionSpan_of_ne hd, List.cons_append]

theorem exponentSpan_end :
    exponentSpan (w ++ c :: r) = ((exponentSpan w).1, (exponentSpan w).2 ++ c :: r) := by
  obtain ⟨-, -, -, -, hlower, hupper⟩ := endsNumber_iff.mp hc
  rcases w with _ | ⟨d, w⟩
  · simp [exponentSpan, hlower, hupper]
  · simp only [List.cons_append, exponentSpan, signSpan_end hc, digitSpan_end hc]
    split <;> rfl

theorem numberSpan_end :
    numberSpan (w ++ c :: r) = ((numberSpan w).1, (numberSpan w).2 ++ c :: r) := by
  simp only [numberSpan, signSpan_end hc, digitSpan_end hc, fractionSpan_end hc,
    exponentSpan_end hc]

theorem startsUnsigned_end : startsUnsigned (w ++ c :: r) = startsUnsigned w := by
  obtain ⟨hdigit, -, -, hpoint, -⟩ := endsNumber_iff.mp hc
  rcases w with _ | ⟨d, _ | ⟨e, w⟩⟩
  · simp [startsUnsigned, hpoint, hdigit]
  · by_cases hd : d = '.'
    · subst hd
      simp [startsUnsigned, hdigit]
    · simp [startsUnsigned, hd]
  · by_cases hd : d = '.' <;> simp [startsUnsigned, hd]

theorem startsNumber_end : startsNumber (w ++ c :: r) = startsNumber w := by
  obtain ⟨hdigit, hplus, hminus, hpoint, -⟩ := endsNumber_iff.mp hc
  rcases w with _ | ⟨d, w⟩
  · simp [startsNumber, startsUnsigned, hplus, hminus, hpoint, hdigit]
  · have h := startsUnsigned_end hc (d :: w) r
    simp only [List.cons_append] at h
    simp only [List.cons_append, startsNumber, startsUnsigned_end hc, h]

end Number

/-! ## Units -/

/-- Some letters of which no number goes on with the first. -/
def IsPlainUnit (unit : Text) : Prop :=
  (∃ c unit', unit = c :: unit' ∧ c ≠ 'e' ∧ c ≠ 'E') ∧ ∀ c ∈ unit, c.isAlpha = true

theorem isPlainUnit_px : IsPlainUnit px := ⟨⟨'p', ['x'], rfl, by decide, by decide⟩, by simp [px]⟩

/-- The token of a length. -/
def lengthToken (unit number : Text) : Token := ⟨.dimension unit, number ++ unit⟩

/-- The token of a pixel length with this number. -/
def pxToken (number : Text) : Token := lengthToken px number

theorem startsName_alpha {c : Char} (h : c.isAlpha = true) (s : Text) :
    startsName (c :: s) = true := by
  have hstart : isNameStart c = true := by simp [isNameStart, h]
  unfold startsName
  split <;> simp_all

theorem isAlphanum_of_isAlpha {c : Char} (h : c.isAlpha = true) : c.isAlphanum = true := by
  simp [Char.isAlphanum, h]

theorem endsNumber_of_isAlpha {c : Char} (h : c.isAlpha = true) (hlower : c ≠ 'e')
    (hupper : c ≠ 'E') : endsNumber c = true := by
  have hne (d : Char) (hd : d.isAlpha = false) : c ≠ d := by
    rintro rfl
    rw [hd] at h
    cases h
  refine endsNumber_iff.mpr ⟨?_, hne _ rfl, hne _ rfl, hne _ rfl, hlower, hupper⟩
  simp only [Char.isAlpha, Char.isUpper, Char.isLower, Char.isDigit] at *
  grind

theorem nameChars_cons {c : Char} (h : c.isAlphanum = true) (s : Text) :
    nameChars (c :: s) = (⟨[c], c⟩ :: (nameChars s).1, (nameChars s).2) := by
  obtain ⟨hname, hb⟩ := Lexer.isNameChar_of_isAlphanum h
  have hescape : (c == '\\' && !startsNewline s) = false := by simp [hb]
  have hnul : c ≠ '\x00' := by
    rintro rfl
    cases h
  rw [nameChars]
  simp [hescape, hname, Lexer.charOfCode_toNat hnul]

theorem name_letters {letters r : Text} (h : ∀ c ∈ letters, c.isAlphanum = true)
    (hr : nameChars r = ([], r)) : name (letters ++ r) = (⟨letters, letters⟩, r) := by
  have hchars : nameChars (letters ++ r) = (letters.map fun c => ⟨[c], c⟩, r) := by
    induction letters with
    | nil => exact hr
    | cons c letters ih =>
      rw [List.cons_append, nameChars_cons (h c (by simp)), ih fun c hc => h c (by simp [hc])]
      rfl
  rw [name, hchars]
  simp [List.flatMap_map, List.map_map, Function.comp_def]

/-- A number with a unit behind it is a length in front of any text that does not go on with the
name. -/
theorem next?_length {unit number r : Text} (hunit : IsPlainUnit unit)
    (hnumber : startsNumber number = true) (hspan : (numberSpan number).2 = [])
    (hr : nameChars r = ([], r)) :
    next? (number ++ unit ++ r) = some (lengthToken unit number, r) := by
  obtain ⟨⟨c, unit', rfl, hlower, hupper⟩, halpha⟩ := hunit
  have hc : endsNumber c = true := endsNumber_of_isAlpha (halpha c (by simp)) hlower hupper
  have happend : number ++ c :: unit' ++ r = number ++ c :: (unit' ++ r) := by simp
  have hspan' : numberSpan (number ++ c :: unit' ++ r) = (number, c :: unit' ++ r) := by
    have hwhole := numberSpan_append number
    rw [hspan, List.append_nil] at hwhole
    rw [happend, numberSpan_end hc, hspan, hwhole]
    rfl
  have hstarts : startsNumber (number ++ c :: unit' ++ r) = true := by
    rw [happend, startsNumber_end hc, hnumber]
  have hnumeric : numeric (number ++ c :: unit' ++ r) = (lengthToken (c :: unit') number, r) := by
    have hname : startsName (c :: unit' ++ r) = true := startsName_alpha (halpha c (by simp)) _
    have hpercent : ∀ t, (numberSpan (number ++ c :: unit' ++ r)).2 ≠ ['%'] ++ t := by
      rw [hspan']
      rintro t ht
      cases (List.cons.inj ht).1
      exact absurd (halpha '%' (by simp)) (by decide)
    rw [numeric_eq hpercent, hspan', if_pos hname,
      name_letters (fun c hc => isAlphanum_of_isAlpha (halpha c hc)) hr]
    rfl
  rcases hs : number ++ c :: unit' ++ r with _ | ⟨d, s⟩
  · simp at hs
  · rw [hs] at hstarts hnumeric
    rw [next?_cons, if_pos hstarts, hnumeric]
    -- No number starts with `-->`.
    rintro rfl t rfl
    cases hstarts

theorem next?_px {number r : Text} (hnumber : startsNumber number = true)
    (hspan : (numberSpan number).2 = []) (hr : nameChars r = ([], r)) :
    next? (number ++ px ++ r) = some (pxToken number, r) :=
  next?_length isPlainUnit_px hnumber hspan hr

theorem identLike_not_dimension (s : Text) (unit : Text) :
    (identLike s).1.kind ≠ .dimension unit := by
  cases identLike_cases (Prod.mk.eta (p := identLike s)).symm with
  | ident _ ht => simp [ht]
  | function _ _ ht => simp [ht]
  | url _ _ hkind => rcases hkind with h | h <;> simp [h]

/-- Only a number makes a dimension. -/
theorem next?_dimension {s r : Text} {t : Token} {unit : Text} (h : next? s = some (t, r))
    (ht : t.kind = .dimension unit) : startsNumber s = true ∧ numeric s = (t, r) := by
  rcases next?_word h (by rw [ht]; rfl) with hnumber | ⟨-, -, hident⟩
  · exact hnumber
  · exact absurd (by rw [hident, ht]) (identLike_not_dimension s unit)

/-- A dimension is a number and the name behind it. -/
theorem numeric_dimension {s r : Text} {t : Token} {unit : Text} (h : numeric s = (t, r))
    (ht : t.kind = .dimension unit) :
    (name (numberSpan s).2).1.value = unit ∧ (name (numberSpan s).2).2 = r := by
  cases numeric_cases h with
  | percentage htoken =>
    rw [htoken] at ht
    cases ht
  | dimension _ htoken hr =>
    rw [htoken] at ht
    exact ⟨by simpa using ht, hr⟩
  | number _ _ htoken =>
    rw [htoken] at ht
    cases ht

/-- Without a backslash a name has as many characters as it is written with. -/
theorem length_name {s : Text} (h : '\\' ∉ (name s).1.source) :
    (name s).1.value.length = (name s).1.source.length := by
  simp only [name] at h ⊢
  fun_induction nameChars s with
  | case1 => rfl
  | case2 => simp at h
  | case3 c r _ _ next ih =>
    simp only [List.flatMap_cons, List.mem_append, not_or] at h
    simpa using ih h.2
  | case4 => rfl

/-- No name goes on behind a name. -/
theorem nameChars_left (s : Text) : nameChars (nameChars s).2 = ([], (nameChars s).2) := by
  rcases hr : (nameChars s).2 with _ | ⟨c, r⟩
  · rw [nameChars]
  · obtain ⟨hc, hb⟩ := Lexer.nameChars_stop s hr
    exact nameChars_of_stop hc hb

/-- Whether a name goes on into some text depends on the first character behind it at most. -/
theorem nameChars_of_front {z r r' : Text} (hz : z ≠ []) (hr : startsNewline r = false)
    (h : nameChars (z ++ r) = ([], z ++ r)) : nameChars (z ++ r') = ([], z ++ r') := by
  obtain ⟨d, z, rfl⟩ := List.exists_cons_of_ne_nil hz
  obtain ⟨hd, hback⟩ := Lexer.nameChars_stop _ (congrArg Prod.snd h)
  refine nameChars_of_stop hd fun hslash => ?_
  have hnewline := hback hslash
  rcases z with _ | ⟨e, z⟩
  · exact absurd hnewline (ne_true_of_eq_false hr)
  · exact hnewline

theorem nameChars_ne {c : Char} (hc : isNameChar c = true) (r : Text) :
    nameChars (c :: r) ≠ ([], c :: r) := by
  intro h
  have hname := (Lexer.nameChars_stop (c :: r) (congrArg Prod.snd h)).1
  rw [hc] at hname
  cases hname

/-- No name goes on behind a dimension. -/
theorem nameChars_of_dimension {s r : Text} {t : Token} {unit : Text}
    (h : next? s = some (t, r)) (ht : t.kind = .dimension unit) : nameChars r = ([], r) := by
  rw [← (numeric_dimension (next?_dimension h ht).2 ht).2]
  exact nameChars_left _

/-- Where no name goes on none starts. -/
theorem startsName_of_nameChars {r : Text} (h : nameChars r = ([], r)) : startsName r = false := by
  have hstarts := Lexer.startsName_nameChars r
  rwa [h] at hstarts

/-- A name without a backslash is as long as the `px` that it spells, so it is that `px`. -/
theorem eq_nil_of_name_px {v r : Text} (hv : '\\' ∉ v)
    (hvalue : (name (v ++ 'p' :: 'x' :: r)).1.value = px)
    (hrest : (name (v ++ 'p' :: 'x' :: r)).2 = r) : v = [] := by
  have hsource : (name (v ++ 'p' :: 'x' :: r)).1.source = v ++ px := by
    have happend := name_append (v ++ 'p' :: 'x' :: r)
    rw [hrest] at happend
    refine (List.append_left_inj r).mp ?_
    rw [happend]
    simp [px]
  have hback : '\\' ∉ (name (v ++ 'p' :: 'x' :: r)).1.source := by
    rw [hsource, List.mem_append, not_or]
    exact ⟨hv, by decide⟩
  have hlength := length_name hback
  rw [hvalue, hsource, List.length_append] at hlength
  exact List.length_eq_zero_iff.mp (by omega)

/-- A pixel length is spelled as it looks if its number has no backslash in it. -/
theorem exists_number {s r : Text} {t : Token} {number : Text} (h : next? s = some (t, r))
    (ht : t.pxNumber? = some number) (hnumber : '\\' ∉ number) :
    t = pxToken number ∧ startsNumber number = true ∧ (numberSpan number).2 = [] ∧
      nameChars r = ([], r) := by
  have hsource := append_px_of_pxNumber? ht
  have hkind := kind_of_pxNumber? ht
  obtain ⟨hstarts, hnumeric⟩ := next?_dimension h hkind
  obtain ⟨hvalue, hrest⟩ := numeric_dimension hnumeric hkind
  have hs : s = number ++ 'p' :: ('x' :: r) := by
    rw [← next?_append h, ← hsource]
    simp [px]
  have hp : endsNumber 'p' = true := by decide
  rw [hs, startsNumber_end hp] at hstarts
  rw [hs, numberSpan_end hp] at hvalue hrest
  have hback : '\\' ∉ (numberSpan number).2 := by
    intro hv
    refine hnumber ?_
    rw [← numberSpan_append number]
    exact List.mem_append_right _ hv
  refine ⟨?_, hstarts, eq_nil_of_name_px hback hvalue hrest, nameChars_of_dimension h hkind⟩
  rw [pxToken, lengthToken, hsource, ← hkind]

/-- Behind a pixel length without a backslash any text may stand that does not go on with the
name, and in front of it the same tokens stay. -/
theorem Lexes.exchange_length {ts : List Token} {t : Token} {number r r' : Text}
    (hts : Lexes (ts ++ [t]) r) (ht : t.pxNumber? = some number) (hnumber : '\\' ∉ number)
    (hr : nameChars r' = ([], r')) : Lexes (ts ++ [t]) r' := by
  obtain ⟨hts, hnext⟩ := lexes_append_singleton_iff.mp hts
  obtain ⟨rfl, hstarts, hspan, -⟩ := exists_number hnext ht hnumber
  refine lexes_append_singleton_iff.mpr ⟨?_, next?_px hstarts hspan hr⟩
  refine hts.exchange (.of_length ?_ ⟨'p', by simp [pxToken, lengthToken, px], by decide⟩ r r')
  have hne : number ≠ [] := by
    rintro rfl
    cases hstarts
  have := List.length_pos_iff.mpr hne
  simp only [pxToken, lengthToken, px, List.length_append, List.length_cons, List.length_nil]
  omega

end Relength.Token
