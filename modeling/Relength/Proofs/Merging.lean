import Relength.Options
import Relength.Proofs.FlatTokens
import Relength.Proofs.Locality.Boundary

/-!
# Converted lengths as tokens

A converted length is written as one token, a number or a dimension in the new unit. What is written
need not be read back so: the `+` of a length is dropped and its point may get a digit in front, and
then the token in front of it may take the digits; a zero has no unit to keep it from the digits
behind it.

`Conversion.replacements` are the tokens of a text with those of converted lengths in their places.

* `Token.lexes_changed`: such tokens are read back if none absorbs the text behind it;
* `Options.tokenize_convert`: they are read back from the converted text exactly then.
-/

namespace Relength

open Token

namespace Conversion

/-- The token in the place of a pixel length with this number. -/
def replacement (c : Conversion) (t : Token) (number : Text) : Token :=
  match c.converted number with
  | .number x => if x.isZero then ⟨.number, ['0']⟩ else lengthToken c.unit x.toNumberText
  | _ => t

/-- The tokens of a text, with each pixel length replaced by one token. -/
def replacements (c : Conversion) (s : Text) : List Token :=
  (located [] (tokenize s)).map fun p => ((lengthAt? p).map (c.replacement p.1)).getD p.1

theorem source_replacement (c : Conversion) {t : Token} {number : Text}
    (h : t.source = number ++ px) : (c.replacement t number).source = c.format number := by
  cases hc : c.converted number with
  | number x =>
    simp only [replacement, format, hc]
    split <;> rfl
  | unreadable => simpa only [replacement, format, hc] using h
  | belowMinimum => simpa only [replacement, format, hc] using h
  | notFinite => simpa only [replacement, format, hc] using h

/-- The converted text is that of the replacements. -/
theorem convert_eq_join (c : Conversion) (s : Text) : c.convert s = join (c.replacements s) := by
  rw [convert, replacePx_eq_flatMap, replacements, join, List.flatMap_map]
  congr 1
  funext p
  cases hp : lengthAt? p with
  | none => rfl
  | some number => exact (c.source_replacement (lengthAt?_eq_some_iff.mp hp).2.2).symm

end Conversion

namespace Token

/-- What may take the place of a token: the token itself, and that of a pixel length a length in
another unit or a zero. -/
inductive Change (unit : Text) : Token → Token → Prop where
  | kept (t : Token) : Change unit t t
  | length {number numeral : Text} (hnumber : IsNumber number) (hnumeral : IsSigned numeral) :
    Change unit (pxToken number) (lengthToken unit numeral)
  | zero {number : Text} (hnumber : IsNumber number) : Change unit (pxToken number) ⟨.number, ['0']⟩

/-- Every replacement is such a change. -/
theorem change_replacement (c : Conversion) {s r : Text} {t : Token} {number : Text}
    (h : next? s = some (t, r)) (ht : t.pxNumber? = some number) :
    Change c.unit t (c.replacement t number) := by
  cases hc : c.converted number with
  | number x =>
    obtain ⟨hread, hfinite⟩ := Conversion.of_converted hc
    have hback : '\\' ∉ number := fun hmem => by
      cases Conversion.plain_of_splitSign (Binary64.plain_of_ofText? hread) _ hmem
    obtain ⟨rfl, hstarts, hspan, -⟩ := exists_number h ht hback
    simp only [Conversion.replacement, hc]
    split
    · exact .zero ⟨hstarts, hspan⟩
    · exact .length ⟨hstarts, hspan⟩ (Binary64.isSigned_toNumberText hfinite)
  | unreadable => simpa only [Conversion.replacement, hc] using .kept t
  | belowMinimum => simpa only [Conversion.replacement, hc] using .kept t
  | notFinite => simpa only [Conversion.replacement, hc] using .kept t

theorem change_replacements (c : Conversion) (s : Text) :
    List.Forall₂ (Change c.unit) (tokenize s) (c.replacements s) := by
  have hone : ∀ p ∈ located [] (tokenize s),
      Change c.unit p.1 (((lengthAt? p).map (c.replacement p.1)).getD p.1) := by
    intro p hp
    have hmem : p.1 ∈ tokenize s := by
      rw [← map_fst_located [] (tokenize s)]
      exact List.mem_map_of_mem hp
    obtain ⟨front, back, hsplit⟩ := List.append_of_mem hmem
    have hlexes := lexes_tokenize s
    rw [hsplit] at hlexes
    have hnext := (lexes_cons_iff.mp (lexes_append_iff.mp hlexes).2).1
    cases hlength : lengthAt? p with
    | none => exact .kept p.1
    | some number =>
      have hpx := pxNumber?_eq_some_iff.mpr (lengthAt?_eq_some_iff.mp hlength).2
      exact change_replacement c hnext hpx
  have hall := List.forall₂_map_right_iff.mpr (List.forall₂_same.mpr hone)
  rw [← List.forall₂_map_left_iff (f := Prod.fst), map_fst_located] at hall
  exact hall

/-! ## One token -/

variable {r r' : Text}

/-- A zero is a number by itself in front of what it does not absorb. -/
theorem next?_zero (hname : startsName r = false) (hnot : absorbs ⟨.number, ['0']⟩ r = false) :
    next? ('0' :: r) = some (⟨.number, ['0']⟩, r) := by
  obtain ⟨hhead, hfraction⟩ : (r.head?.any fun c => c.isDigit || c == '%') = false ∧
      startsFraction r = false := by simpa [absorbs, isWhole] using hnot
  have hquits : Quits r := by
    cases r with
    | nil => rfl
    | cons c r =>
      have hlower : c ≠ 'e' := by
        rintro rfl
        cases hname
      have hupper : c ≠ 'E' := by
        rintro rfl
        cases hname
      have hdigit : c.isDigit = false := (Bool.or_eq_false_iff.mp hhead).1
      simp [Quits, hdigit, hlower, hupper]
  have hspan : numberSpan ('0' :: r) = (['0'], r) :=
    numberSpan_quits (s := ['0']) rfl (by simp) hquits (by rw [hfraction, Bool.and_false])
  have hpercent : ∀ u, (numberSpan ('0' :: r)).2 ≠ ['%'] ++ u := by
    rw [hspan]
    rintro u rfl
    cases hhead
  have hstarts : startsNumber ('0' :: r) = true := rfl
  rw [next?_cons (fun h => by cases h), if_pos hstarts, numeric_eq hpercent, hspan, hname]
  rfl

/-- No scanner in front of the texts tells them apart, or both start with a number. -/
def Fits (r r' : Text) : Prop := Alike r r' ∨ startsNumber r = true ∧ StartsSigned r'

theorem startsNumber_length {number : Text} (h : IsNumber number) (r : Text) :
    startsNumber ((pxToken number).source ++ r) = true := by
  have hsource : (pxToken number).source ++ r = number ++ 'p' :: ('x' :: r) := by
    simp [pxToken, lengthToken, px]
  rw [hsource, startsNumber_end (by decide), h.1]

/-- What takes the place of a token is read as a token there, unless it absorbs something. -/
theorem Change.next? {unit : Text} (hunit : IsPlainUnit unit) {t u : Token} (h : Change unit t u)
    (ht : Token.next? (t.source ++ r) = some (t, r)) (hfits : Fits r r')
    (hnot : u.absorbs r' = false) :
    Token.next? (u.source ++ r') = some (u, r') ∧ Fits (t.source ++ r) (u.source ++ r') := by
  cases h with
  | kept t =>
    rcases hfits with halike | ⟨hr, hr'⟩
    · exact ⟨next?_exchange (y := []) halike ht, .inl (halike.append t.source)⟩
    · obtain ⟨hnext, halike⟩ := stays_of_not_absorbs ht hr hr' hnot
      exact ⟨hnext, .inl halike⟩
  | @length number numeral hnumber hnumeral =>
    refine ⟨?_, .inr ⟨startsNumber_length hnumber r, ?_⟩⟩
    · refine next?_length hunit hnumeral.isNumber.1 hnumeral.isNumber.2 ?_
      rcases hfits with halike | ⟨-, hr'⟩
      · have hstop := nameChars_of_dimension ht rfl
        have hstop' := local_nameChars [] [] r r' halike (congrArg Prod.snd hstop)
        simpa [hstop] using hstop'
      · rw [absorbs, lengthToken, hr'.any_isNameChar] at hnot
        cases hnot
    · rw [lengthToken, List.append_assoc]
      exact startsSigned_append hnumeral _
  | @zero number hnumber =>
    refine ⟨next?_zero ?_ hnot, .inr ⟨startsNumber_length hnumber r, '0', r', rfl, .inl rfl⟩⟩
    rcases hfits with halike | ⟨-, hr'⟩
    · exact halike.name.symm.trans (startsName_of_nameChars (nameChars_of_dimension ht rfl))
    · exact hr'.startsName

/-! ## All tokens -/

/-- Changed tokens are read back if none absorbs what stands behind it. -/
theorem lexes_changed {unit : Text} (hunit : IsPlainUnit unit) {ts us : List Token}
    (h : List.Forall₂ (Change unit) ts us) (hts : Lexes ts [])
    (hnot : ∀ front t back, us = front ++ t :: back → t.absorbs (join back) = false) :
    Lexes us [] ∧ Fits (join ts) (join us) := by
  induction h with
  | nil => exact ⟨lexes_nil [], .inl (.refl _)⟩
  | @cons t u ts us hchange _ ih =>
    obtain ⟨hnext, hts⟩ := lexes_cons_iff.mp hts
    rw [List.append_nil] at hnext
    obtain ⟨hus, hfits⟩ := ih hts fun front v back hback =>
      hnot (u :: front) v back (by rw [hback, List.cons_append])
    obtain ⟨hnext', hfits'⟩ := hchange.next? hunit hnext hfits (hnot [] u us rfl)
    refine ⟨lexes_cons_iff.mpr ⟨?_, hus⟩, hfits'⟩
    rwa [List.append_nil]

/-- Tokens that are read from a text do not absorb what stands behind them. -/
theorem Lexes.absorbs_eq_false {front back : List Token} {t : Token}
    (h : Lexes (front ++ t :: back) []) : t.absorbs (join back) = false := by
  have hnext := (lexes_cons_iff.mp (lexes_append_iff.mp h).2).1
  rw [List.append_nil] at hnext
  exact Token.absorbs_eq_false hnext

end Token

/-- The replacements are the tokens of the converted text exactly if none absorbs what stands behind
it. -/
theorem Conversion.tokenize_convert_iff (c : Conversion) (hunit : IsPlainUnit c.unit) (s : Text) :
    tokenize (c.convert s) = c.replacements s ↔
      ∀ front t back, c.replacements s = front ++ t :: back → t.absorbs (join back) = false := by
  rw [c.convert_eq_join]
  constructor
  · intro h front t back hsplit
    have hlexes := lexes_tokenize (join (c.replacements s))
    rw [h, hsplit] at hlexes
    exact hlexes.absorbs_eq_false
  · intro h
    exact (lexes_changed hunit (change_replacements c s) (lexes_tokenize s) h).1.tokenize_join

/-- Conversion writes one token in the place of each pixel length outside urls: a length in the new
unit, a zero, or the length that was there. It keeps the others. These are the tokens of the
converted text exactly if none of them absorbs the first characters of the text behind it. -/
theorem Options.tokenize_convert (o : Options) (hunit : o.unit = "rpx".toList) (s : Text) :
    o.convert s = join (o.conversion.replacements s) ∧
      (tokenize (o.convert s) = o.conversion.replacements s ↔
        ∀ front t back, o.conversion.replacements s = front ++ t :: back →
          t.absorbs (join back) = false) := by
  have hplain : IsPlainUnit o.conversion.unit := by
    change IsPlainUnit o.unit
    rw [hunit]
    exact ⟨⟨'r', ['p', 'x'], rfl, by decide, by decide⟩, by simp⟩
  exact ⟨o.conversion.convert_eq_join s, o.conversion.tokenize_convert_iff hplain s⟩

/-- A zero and a length with a blank between them. -/
theorem Options.tokenize_convert_blank :
    default.unit = "rpx".toList ∧
      tokenize (default.convert "0px +1px".toList) =
        [⟨.number, ['0']⟩, ⟨.whitespace, [' ']⟩, lengthToken "rpx".toList ['2']] := by
  let two : Token := lengthToken "rpx".toList ['2']
  have hreplacements :
      default.conversion.replacements "0px +1px".toList =
        [⟨.number, ['0']⟩, ⟨.whitespace, [' ']⟩, two] := by
    have hzero : default.conversion.replacement (pxToken ['0']) ['0'] = ⟨.number, ['0']⟩ := by
      decide +kernel
    have htwo : default.conversion.replacement (pxToken ['+', '1']) ['+', '1'] = two := by
      decide +kernel
    have htokens : located [] (tokenize "0px +1px".toList) =
        [(pxToken ['0'], false), (⟨.whitespace, [' ']⟩, false), (pxToken ['+', '1'], false)] := by
      cbv
    have hnumbers : lengthAt? (pxToken ['0'], false) = some ['0'] ∧
        lengthAt? (⟨.whitespace, [' ']⟩, false) = none ∧
        lengthAt? (pxToken ['+', '1'], false) = some ['+', '1'] := by decide
    rw [Conversion.replacements, htokens, List.map_cons, List.map_cons, List.map_singleton,
      hnumbers.1, hnumbers.2.1, hnumbers.2.2, Option.map_some, Option.map_some, hzero, htwo]
    rfl
  refine ⟨rfl, ?_⟩
  rw [← hreplacements, (default.tokenize_convert rfl _).2, hreplacements]
  rintro (_ | ⟨a, _ | ⟨b, _ | ⟨c, front⟩⟩⟩) t back h
  · obtain ⟨rfl, rfl⟩ := List.cons.inj h
    rfl
  · obtain ⟨rfl, rfl⟩ := List.cons.inj (List.cons.inj h).2
    rfl
  · obtain ⟨rfl, rfl⟩ := List.cons.inj (List.cons.inj (List.cons.inj h).2).2
    rfl
  · simp at h

/-- A sign is dropped, and two lengths become one. -/
theorem Options.tokenize_convert_signs :
    ¬∀ (o : Options), o.unit = "rpx".toList →
      ∀ s, tokenize (o.convert s) = o.conversion.replacements s := by
  intro h
  have htwo : default.conversion.format ['1'] = "2rpx".toList := by decide +kernel
  have htwo' : default.conversion.format ['+', '1'] = "2rpx".toList := by decide +kernel
  have hreplace (f : Text → Text) :
      replacePx f "1px+1px".toList = f ['1'] ++ (f ['+', '1'] ++ []) := by
    cbv
  have hconvert : default.convert "1px+1px".toList = "2rpx2rpx".toList := by
    rw [convert, Conversion.convert, hreplace, htwo, htwo']
    rfl
  have htokens := h default rfl "1px+1px".toList
  have hlength := congrArg List.length htokens
  rw [hconvert, Conversion.replacements, List.length_map, ← List.length_map (f := Prod.fst),
    map_fst_located] at hlength
  have hone : (tokenize "2rpx2rpx".toList).length = 1 := by cbv
  have htwo : (tokenize "1px+1px".toList).length = 2 := by cbv
  rw [hone, htwo] at hlength
  cases hlength

end Relength
