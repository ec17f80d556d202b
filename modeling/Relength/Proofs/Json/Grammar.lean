import Relength.Json
import Relength.Proofs.Numeral

/-!
# The grammar of JSON

`Spells` derives the texts of values, and of what stands between the brackets of arrays and objects.
What a reader makes of such a text and what it leaves does not depend on what is behind the text, as
long as no value goes on there (`Settles`). This module has it for strings and numbers.

* `Json.settles_string`, `Json.settles_number`, `Json.settles_skipNumber`: the readers of scalars.
-/

namespace Relength.Json

/-! ## Scalars -/

/-- White space. -/
def IsBlank (s : Text) : Prop := ∀ c ∈ s, isSpace c = true

/-- What stands between the quotes of a string. -/
inductive Characters : Text → Prop where
  | nil : Characters []
  | plain {c : Char} {s : Text} (hquote : c ≠ '"') (hescape : c ≠ '\\') (hcontrol : 0x20 ≤ c.toNat)
      (hs : Characters s) : Characters (c :: s)
  | escape {c : Char} {s : Text} (hc : c ∈ ['"', '\\', '/', 'b', 'f', 'n', 'r', 't'])
      (hs : Characters s) : Characters ('\\' :: c :: s)
  | unicode {u s : Text} (hlength : u.length = 4) (hu : ∀ c ∈ u, Text.isHexDigit c = true)
      (hs : Characters s) : Characters ('\\' :: 'u' :: (u ++ s))

/-- No escapes are needed for most characters. -/
theorem characters_plain {s : Text} (h : ∀ c ∈ s, c ≠ '"' ∧ c ≠ '\\' ∧ 0x20 ≤ c.toNat) :
    Characters s := by
  induction s with
  | nil => exact .nil
  | cons c s ih =>
    obtain ⟨hquote, hescape, hcontrol⟩ := h c (by simp)
    exact .plain hquote hescape hcontrol (ih fun d hd => h d (by simp [hd]))

def IsDigits (s : Text) : Prop := s ≠ [] ∧ ∀ c ∈ s, c.isDigit = true

inductive IsFraction : Text → Prop where
  | none : IsFraction []
  | digits {s : Text} (h : IsDigits s) : IsFraction ('.' :: s)

inductive IsExponent : Text → Prop where
  | none : IsExponent []
  | digits {e : Char} {sign s : Text} (he : e = 'e' ∨ e = 'E')
      (hsign : sign = [] ∨ sign = ['+'] ∨ sign = ['-']) (h : IsDigits s) :
      IsExponent (e :: (sign ++ s))

/-- A number without a sign. No digits follow a zero in front of the point. -/
inductive IsMagnitude : Text → Prop where
  | parts {whole fraction exponent : Text} (hwhole : IsDigits whole)
      (hzero : whole.head? = some '0' → whole = ['0']) (hfraction : IsFraction fraction)
      (hexponent : IsExponent exponent) : IsMagnitude (whole ++ (fraction ++ exponent))

/-! ## Values -/

/-- What a text spells: a value, or what stands between brackets, or one member of it. -/
inductive Part where
  | value | elements | member | members

inductive Spells : Part → Text → Prop where
  | word {s : Text} (h : s ∈ ["null".toList, "true".toList, "false".toList]) : Spells .value s
  | magnitude {s : Text} (h : IsMagnitude s) : Spells .value s
  | negative {s : Text} (h : IsMagnitude s) : Spells .value ('-' :: s)
  | string {s : Text} (h : Characters s) : Spells .value ('"' :: (s ++ ['"']))
  | emptyArray {b : Text} (h : IsBlank b) : Spells .value ('[' :: (b ++ [']']))
  | array {s : Text} (h : Spells .elements s) : Spells .value ('[' :: (s ++ [']']))
  | emptyObject {b : Text} (h : IsBlank b) : Spells .value ('{' :: (b ++ ['}']))
  | object {s : Text} (h : Spells .members s) : Spells .value ('{' :: (s ++ ['}']))
  | lastElement {b v b' : Text} (hb : IsBlank b) (hv : Spells .value v) (hb' : IsBlank b') :
      Spells .elements (b ++ (v ++ b'))
  | element {b v b' s : Text} (hb : IsBlank b) (hv : Spells .value v) (hb' : IsBlank b')
      (hs : Spells .elements s) : Spells .elements (b ++ (v ++ (b' ++ ',' :: s)))
  | member {b₁ name b₂ b₃ v b₄ : Text} (h₁ : IsBlank b₁) (hname : Characters name)
      (h₂ : IsBlank b₂) (h₃ : IsBlank b₃) (hv : Spells .value v) (h₄ : IsBlank b₄) :
      Spells .member (b₁ ++ '"' :: (name ++ '"' :: (b₂ ++ ':' :: (b₃ ++ (v ++ b₄)))))
  | lastMember {s : Text} (h : Spells .member s) : Spells .members s
  | members {m s : Text} (hm : Spells .member m) (hs : Spells .members s) :
      Spells .members (m ++ ',' :: s)

/-! ## Settled readers -/

/-- Behind this a value does not go on. -/
def isDelimiter (c : Char) : Bool := isSpace c || c == ',' || c == ':' || c == ']' || c == '}'

def Delimited (r : Text) : Prop := r.head?.any isDelimiter = true

/-- The reader makes the same of this text whatever is behind it, and leaves that. -/
def Settles {α : Type} (f : Text → Except Fault (α × Text)) (s : Text) : Prop :=
  ∃ result : Except Fault α, ∀ r, Delimited r → f (s ++ r) = result.map (·, r)

theorem delimited_cons {c : Char} (h : isDelimiter c = true) (r : Text) : Delimited (c :: r) := by
  simpa [Delimited] using h

/-- Blanks in front of a delimiter are delimiters themselves. -/
theorem delimited_blank {b r : Text} (hb : IsBlank b) (hr : Delimited r) : Delimited (b ++ r) := by
  cases b with
  | nil => exact hr
  | cons c b =>
    refine delimited_cons ?_ (b ++ r)
    simp [isDelimiter, hb c (by simp)]

section Delimited

variable {r : Text} (hr : Delimited r)

include hr

theorem Delimited.exists_cons : ∃ c r', r = c :: r' ∧ isDelimiter c = true := by
  cases r with
  | nil => cases hr
  | cons c r' => exact ⟨c, r', rfl, by simpa [Delimited] using hr⟩

theorem Delimited.startsDigit : Json.startsDigit r = false := by
  obtain ⟨c, r', rfl, hc⟩ := hr.exists_cons
  simp only [isDelimiter, isSpace, Bool.or_eq_true, beq_iff_eq] at hc
  rcases hc with ((((((rfl | rfl) | rfl) | rfl) | rfl) | rfl) | rfl) | rfl <;> rfl

theorem Delimited.startsExponent : Json.startsExponent r = false := by
  obtain ⟨c, r', rfl, hc⟩ := hr.exists_cons
  simp only [isDelimiter, isSpace, Bool.or_eq_true, beq_iff_eq] at hc
  rcases hc with ((((((rfl | rfl) | rfl) | rfl) | rfl) | rfl) | rfl) | rfl <;> rfl

theorem Delimited.ne_point (s : Text) : r ≠ '.' :: s := by
  obtain ⟨c, r', rfl, hc⟩ := hr.exists_cons
  rintro ⟨rfl⟩
  cases hc

end Delimited

/-! ## Strings -/

theorem length_le_byteSize (s : Text) : s.length ≤ byteSize s := by
  have hfold (sizes : List Nat) (n : Nat) (h : ∀ m ∈ sizes, 1 ≤ m) :
      n + sizes.length ≤ sizes.foldl (· + ·) n := by
    induction sizes generalizing n with
    | nil => exact Nat.le_refl _
    | cons m sizes ih =>
      have hm := h m (by simp)
      have hrest := ih (n + m) (fun k hk => h k (by simp [hk]))
      simp only [List.length_cons, List.foldl_cons]
      omega
  have hsizes := hfold (s.map fun c => c.utf8Size) 0 (by simp [Char.utf8Size_pos, Nat.succ_le_iff])
  rwa [List.length_map, Nat.zero_add] at hsizes

theorem hexUnit_append {u : Text} (hlength : u.length = 4) (hu : ∀ c ∈ u, Text.isHexDigit c = true)
    (s : Text) : hexUnit (u ++ s) = .ok (Text.hexValue u, s) := by
  have htake : (u ++ s).take 4 = u := by rw [← hlength, List.take_left]
  have hdrop : (u ++ s).drop 4 = s := by rw [← hlength, List.drop_left]
  have hbytes := length_le_byteSize u
  have hlong : 4 ≤ (u ++ s).length := by
    rw [List.length_append]
    omega
  rw [hexUnit, htake, hdrop, if_neg (by omega), if_pos ⟨hlong, List.all_eq_true.mpr hu⟩]

theorem string_escape {strict : Bool} {s r : Text} {c : Char} (h : escape strict s = .ok (c, r)) :
    string strict ('\\' :: s) = (string strict r).map fun p => (c :: p.1, p.2) := by
  rw [string, if_neg (by decide), if_pos (beq_self_eq_true _)]
  split
  · next f hf =>
    rw [h] at hf
    cases hf
  · next d r' hd =>
    rw [h] at hd
    cases hd
    rfl

theorem string_escape_error {strict : Bool} {s : Text} {f : Fault}
    (h : escape strict s = .error f) : string strict ('\\' :: s) = .error f := by
  rw [string, if_neg (by decide), if_pos (beq_self_eq_true _)]
  split
  · next f' hf =>
    rw [h] at hf
    cases hf
    rfl
  · next d r' hd =>
    rw [h] at hd
    cases hd

/-- Simple escapes are one character behind the backslash. -/
theorem escape_simple (strict : Bool) {c : Char}
    (hc : c ∈ ['"', '\\', '/', 'b', 'f', 'n', 'r', 't']) :
    ∃ d, ∀ s, escape strict (c :: s) = .ok (d, s) := by
  simp only [List.mem_cons, List.not_mem_nil, or_false] at hc
  rcases hc with rfl | rfl | rfl | rfl | rfl | rfl | rfl | rfl <;> exact ⟨_, fun _ => rfl⟩

section Escapes

variable {strict : Bool} {u : Text} (hlength : u.length = 4)
  (hu : ∀ c ∈ u, Text.isHexDigit c = true)

include hlength hu

/-- The escape of a code unit is one character, or half of one, or wrong. -/
theorem cases_unicodeEscape {s : Text} (hs : Characters s) :
    (∃ result : Except Fault Char, ∀ r,
      unicodeEscape strict (u ++ (s ++ '"' :: r)) = result.map (·, s ++ '"' :: r)) ∨
    ∃ u' s' d, s = '\\' :: 'u' :: (u' ++ s') ∧ Characters s' ∧ ∀ r,
      unicodeEscape strict (u ++ (s ++ '"' :: r)) = .ok (d, s' ++ '"' :: r) := by
  simp only [unicodeEscape, hexUnit_append hlength hu]
  cases strict with
  | false => exact .inl ⟨.ok _, fun _ => rfl⟩
  | true =>
    generalize Text.hexValue u = n
    by_cases hlow : 0xDC00 ≤ n ∧ n ≤ 0xDFFF
    · exact .inl ⟨.error .syntactic, fun r => by simp [hlow, Except.map]⟩
    by_cases hbasic : n < 0xD800 ∨ 0xDBFF < n
    · exact .inl ⟨.ok (Char.ofNat n), fun r => by simp [hlow, hbasic, Except.map]⟩
    -- A high surrogate wants another escape behind it.
    simp only [Bool.not_true, Bool.false_eq_true, if_false, if_neg hlow, if_neg hbasic]
    cases hs with
    | nil => exact .inl ⟨.error .syntactic, fun _ => rfl⟩
    | @plain c s hquote hescape hcontrol hs =>
      refine .inl ⟨.error .syntactic, fun r => ?_⟩
      rw [List.cons_append]
      split
      · next h => cases h
      · next h => exact absurd (List.cons.inj h).1 hescape
      · next h => exact absurd (List.cons.inj h).1 hescape
      · rfl
    | @escape c s hc hs =>
      refine .inl ⟨.error .syntactic, fun r => ?_⟩
      simp only [List.mem_cons, List.not_mem_nil, or_false] at hc
      rcases hc with rfl | rfl | rfl | rfl | rfl | rfl | rfl | rfl <;> rfl
    | @unicode u' s hlength' hu' hs =>
      simp only [List.cons_append, List.append_assoc, hexUnit_append hlength' hu']
      generalize Text.hexValue u' = m
      by_cases hm : 0xDC00 ≤ m ∧ m ≤ 0xDFFF
      · exact .inr ⟨u', s, _, rfl, hs, fun r => by rw [if_pos hm]⟩
      · exact .inl ⟨.error .syntactic, fun r => by rw [if_neg hm]; rfl⟩

end Escapes

/-- What a string says is settled at its quote. -/
theorem settles_string (strict : Bool) {s : Text} (hs : Characters s) :
    ∃ result : Except Fault Text, ∀ r, string strict (s ++ '"' :: r) = result.map (·, r) := by
  -- Two escapes can make one character, so the induction is on the length.
  induction hn : s.length using Nat.strong_induction_on generalizing s with
  | _ n ih =>
    have hcons {s' s : Text} (d : Char) (hs' : Characters s') (hlt : s'.length < n)
        (hread : ∀ r, string strict (s ++ '"' :: r) =
          (string strict (s' ++ '"' :: r)).map fun p => (d :: p.1, p.2)) :
        ∃ result : Except Fault Text, ∀ r, string strict (s ++ '"' :: r) = result.map (·, r) := by
      obtain ⟨result, hresult⟩ := ih _ hlt hs' rfl
      refine ⟨result.map (d :: ·), fun r => ?_⟩
      rw [hread, hresult]
      cases result <;> rfl
    cases hs with
    | nil =>
      refine ⟨.ok [], fun r => ?_⟩
      rw [List.nil_append, string, if_pos (beq_self_eq_true _)]
      rfl
    | @plain c s hquote hescape hcontrol hs =>
      refine hcons c hs (by simp at hn; omega) fun r => ?_
      rw [List.cons_append, string, if_neg (by simpa using hquote), if_neg (by simpa using hescape),
        if_neg (by omega)]
    | @escape c s hc hs =>
      obtain ⟨d, hd⟩ := escape_simple strict hc
      refine hcons d hs (by simp at hn; omega) fun r => ?_
      exact string_escape (hd _)
    | @unicode u s hlength hu hs =>
      have hescape (t r : Text) :
          escape strict ('u' :: (u ++ t) ++ r) = unicodeEscape strict (u ++ (t ++ r)) := by
        rw [← List.append_assoc]
        rfl
      simp only [List.length_cons, List.length_append] at hn
      rcases @cases_unicodeEscape strict _ hlength hu _ hs with
        ⟨result, hresult⟩ | ⟨u', s', d, rfl, hs', hread⟩
      · cases result with
        | error f =>
          exact ⟨.error f, fun r => string_escape_error ((hescape s _).trans (hresult r))⟩
        | ok d =>
          exact hcons d hs (by omega) fun r => string_escape ((hescape s _).trans (hresult r))
      · simp only [List.length_cons, List.length_append] at hn
        exact hcons d hs' (by omega) fun r => string_escape ((hescape _ _).trans (hread r))

/-! ## Numbers -/

section Digits

variable {ds : Text} (hds : ∀ c ∈ ds, c.isDigit = true)

include hds

theorem span_digits {r : Text} (hr : startsDigit r = false) :
    (ds ++ r).takeWhile Char.isDigit = ds ∧ (ds ++ r).dropWhile Char.isDigit = r := by
  have hhead : r.head?.any Char.isDigit = false := by
    cases r with
    | nil => rfl
    | cons c r => simpa [startsDigit] using hr
  have hspan := Token.digitSpan_eq_iff.mpr ⟨rfl, hds, hhead⟩
  exact ⟨congrArg Prod.fst hspan, congrArg Prod.snd hspan⟩

/-- The digits that no longer fit are left; if none fits, all are. -/
theorem significand_append (n count : Nat) :
    ∃ m k rest, (∀ c ∈ rest, c.isDigit = true) ∧ (k = count → rest = ds) ∧ count ≤ k ∧
      ∀ r, startsDigit r = false → significand n count (ds ++ r) = (m, k, rest ++ r) := by
  induction ds generalizing n count with
  | nil =>
    refine ⟨n, count, [], by simp, fun _ => rfl, Nat.le_refl _, fun r hr => ?_⟩
    cases r with
    | nil => rfl
    | cons c r =>
      rw [startsDigit] at hr
      simp [significand, hr]
  | cons d ds ih =>
    have hd := hds d (by simp)
    by_cases hfits : n * 10 + (d.toNat - 48) < Nat.pow 2 64
    · obtain ⟨m, k, rest, hrest, -, hk, hread⟩ :=
        ih (fun c hc => hds c (by simp [hc])) (n * 10 + (d.toNat - 48)) (count + 1)
      refine ⟨m, k, rest, hrest, by omega, by omega, fun r hr => ?_⟩
      rw [List.cons_append, significand, hd, ← hread r hr]
      exact if_pos (by simpa using hfits)
    · refine ⟨n, count, d :: ds, hds, fun _ => rfl, Nat.le_refl _, fun r hr => ?_⟩
      rw [List.cons_append, significand, hd]
      exact if_neg (by simpa using hfits)

end Digits

theorem settles_real (negative : Bool) (n : Nat) (e : Int) :
    ∃ result : Except Fault Number, ∀ r, real negative n e r = result.map (·, r) := by
  refine ⟨(scaled (Binary64.ofNat n) e).map fun x => .real (signed negative x), fun r => ?_⟩
  rw [real]
  cases scaled (Binary64.ofNat n) e <;> rfl

section Exponent

variable (negative : Bool) (n : Nat) (e : Int)

/-- An exponent behind its sign. -/
def exponentDigits (minus : Bool) (s : Text) : Except Fault (Number × Text) :=
  if !startsDigit s then .error (if s.isEmpty then .ended else .syntactic)
  else
    let size := Text.decimalValue (s.takeWhile Char.isDigit)
    let rest := s.dropWhile Char.isDigit
    if Nat.pow 2 31 ≤ size then
      if n != 0 && !minus then .error .syntactic
      else .ok (.real (signed negative Binary64.zero), rest)
    else real negative n (if minus then e - size else e + size) rest

theorem exponent_eq (s : Text) : exponent negative n e s =
    exponentDigits negative n e (Binary64.readSign s).1 (Binary64.readSign s).2 := by
  fun_cases Binary64.readSign s with
  | case1 r => cases r <;> rfl
  | case2 r => cases r <;> rfl
  | case3 s =>
    unfold exponent
    simp only
    cases s <;> rfl

theorem settles_exponentDigits (minus : Bool) {ds : Text} (hds : IsDigits ds) :
    Settles (exponentDigits negative n e minus) ds := by
  obtain ⟨hne, hdigits⟩ := hds
  have hstart (r : Text) : startsDigit (ds ++ r) = true := by
    obtain ⟨d, ds, rfl⟩ := List.exists_cons_of_ne_nil hne
    exact hdigits d (by simp)
  obtain ⟨result, hresult⟩ := settles_real negative n (if minus then
    e - Text.decimalValue ds else e + Text.decimalValue ds)
  have hread (r : Text) (hr : Delimited r) : exponentDigits negative n e minus (ds ++ r) =
      if Nat.pow 2 31 ≤ Text.decimalValue ds then
        if n != 0 && !minus then .error .syntactic
        else .ok (.real (signed negative Binary64.zero), r)
      else result.map (·, r) := by
    obtain ⟨hsize, hrest⟩ := span_digits hdigits hr.startsDigit
    simp only [exponentDigits, hstart, hsize, hrest, ← hresult]
    rfl
  split at hread
  · split at hread
    · exact ⟨.error .syntactic, hread⟩
    · exact ⟨.ok (.real (signed negative Binary64.zero)), hread⟩
  · exact ⟨result, hread⟩

theorem readSign_append {sign ds : Text} (hsign : sign = [] ∨ sign = ['+'] ∨ sign = ['-'])
    (hds : IsDigits ds) :
    ∃ minus, ∀ r, Binary64.readSign (sign ++ (ds ++ r)) = (minus, ds ++ r) := by
  rcases hsign with rfl | rfl | rfl
  · refine ⟨false, fun r => ?_⟩
    obtain ⟨hne, hdigits⟩ := hds
    obtain ⟨d, ds, rfl⟩ := List.exists_cons_of_ne_nil hne
    have hd := hdigits d (by simp)
    unfold Binary64.readSign
    split
    · next h =>
      obtain ⟨rfl, -⟩ := List.cons.inj h
      cases hd
    · next h =>
      obtain ⟨rfl, -⟩ := List.cons.inj h
      cases hd
    · rfl
  · exact ⟨false, fun r => rfl⟩
  · exact ⟨true, fun r => rfl⟩

end Exponent

/-- The end of a number: behind the digits an exponent may stand. -/
theorem settles_end (negative : Bool) (n : Nat) (e : Int) {exp : Text} (hexp : IsExponent exp) :
    Settles (fun s => if startsExponent s then exponent negative n e (s.drop 1)
      else real negative n e s) exp := by
  cases hexp with
  | none =>
    obtain ⟨result, hresult⟩ := settles_real negative n e
    refine ⟨result, fun r hr => ?_⟩
    dsimp only
    rw [List.nil_append, hr.startsExponent]
    exact hresult r
  | @digits x sign ds hx hsign hds =>
    obtain ⟨minus, hminus⟩ := readSign_append hsign hds
    obtain ⟨result, hresult⟩ := settles_exponentDigits negative n e minus hds
    refine ⟨result, fun r hr => ?_⟩
    have hstart : startsExponent (x :: (sign ++ ds) ++ r) = true := by
      rcases hx with rfl | rfl <;> rfl
    have hdrop : (x :: (sign ++ ds) ++ r).drop 1 = sign ++ (ds ++ r) := by simp
    dsimp only
    rw [hstart, if_pos rfl, hdrop, exponent_eq, hminus, hresult r hr]

theorem IsExponent.startsDigit {exp r : Text} (hexp : IsExponent exp) (hr : Delimited r) :
    Json.startsDigit (exp ++ r) = false := by
  cases hexp with
  | none => exact hr.startsDigit
  | digits hx => rcases hx with rfl | rfl <;> rfl

theorem settles_fraction (negative : Bool) (n : Nat) (e : Int) {ds exp : Text} (hds : IsDigits ds)
    (hexp : IsExponent exp) : Settles (fraction negative n e) (ds ++ exp) := by
  obtain ⟨hne, hdigits⟩ := hds
  obtain ⟨m, k, rest, hrest, hnone, -, hread⟩ := significand_append hdigits n 0
  obtain ⟨result, hresult⟩ := settles_end negative m (e - k) hexp
  refine ⟨result, fun r hr => ?_⟩
  have hstop := hexp.startsDigit hr
  have hsome : ¬(k = 0 ∧ (!startsDigit (rest ++ (exp ++ r))) = true) := by
    rintro ⟨hk, hstart⟩
    obtain ⟨d, ds, rfl⟩ := List.exists_cons_of_ne_nil hne
    rw [hnone hk, List.cons_append, startsDigit, hdigits d (by simp)] at hstart
    cases hstart
  rw [fraction, List.append_assoc, hread _ hstop]
  dsimp only
  rw [if_neg hsome, (span_digits hrest hstop).2]
  exact hresult r hr

theorem IsFraction.startsDigit {frac exp r : Text} (hfrac : IsFraction frac) (hexp : IsExponent exp)
    (hr : Delimited r) : Json.startsDigit (frac ++ (exp ++ r)) = false := by
  cases hfrac with
  | none => exact hexp.startsDigit hr
  | digits => rfl

theorem IsExponent.ne_point {exp r : Text} (hexp : IsExponent exp) (hr : Delimited r) (s : Text) :
    exp ++ r ≠ '.' :: s := by
  cases hexp with
  | none => exact hr.ne_point s
  | digits hx =>
    intro h
    rcases hx with rfl | rfl <;> cases h

/-- In front of the point the first digit is no zero, unless it is the only one. -/
theorem number_start {whole rest : Text} (hwhole : IsDigits whole)
    (hzero : whole.head? = some '0' → whole = ['0']) (hrest : startsDigit rest = false) :
    ∃ d s, whole ++ rest = d :: s ∧ (!d.isDigit || (d == '0' && startsDigit s)) = false := by
  obtain ⟨d, whole, rfl⟩ := List.exists_cons_of_ne_nil hwhole.1
  refine ⟨d, whole ++ rest, rfl, ?_⟩
  rw [hwhole.2 d (by simp)]
  by_cases hd : d = '0'
  · obtain ⟨-, rfl⟩ := List.cons.inj (hzero (by rw [hd]; rfl))
    simp [hrest]
  · simp [hd]

section Number

variable {d : Char} {s rest t : Text} {m k : Nat} (negative : Bool)
  (hd : (!d.isDigit || (d == '0' && startsDigit s)) = false)
  (hread : significand 0 0 (d :: s) = (m, k, rest ++ t))
  (hspan : (rest ++ t).takeWhile Char.isDigit = rest ∧ (rest ++ t).dropWhile Char.isDigit = t)

include hd hread hspan

theorem number_point {r : Text} (ht : t = '.' :: r) :
    number negative (d :: s) = fraction negative m rest.length r := by
  subst ht
  simp only [number, hd, hread, hspan, Bool.false_eq_true, if_false]

theorem number_whole (ht : ∀ r, t ≠ '.' :: r) : number negative (d :: s) =
    if startsExponent t then exponent negative m rest.length (t.drop 1)
    else if 0 < rest.length then real negative m rest.length t
    else if negative then .ok (.real (-(Binary64.ofNat m)), t)
    else .ok (.natural m, t) := by
  simp only [number, hd, hread, hspan, Bool.false_eq_true, if_false]

end Number

theorem settles_number (negative : Bool) {s : Text} (hs : IsMagnitude s) :
    Settles (number negative) s := by
  obtain @⟨whole, frac, exp, hwhole, hzero, hfrac, hexp⟩ := hs
  obtain ⟨m, k, rest, hrest, -, -, hread⟩ := significand_append hwhole.2 0 0
  have hstart {r : Text} (hr : Delimited r) :
      ∃ d s, whole ++ (frac ++ exp) ++ r = d :: s ∧
        (!d.isDigit || (d == '0' && startsDigit s)) = false ∧
        significand 0 0 (d :: s) = (m, k, rest ++ (frac ++ (exp ++ r))) := by
    have hstop := hfrac.startsDigit hexp hr
    obtain ⟨d, s, hcons, hd⟩ := number_start hwhole hzero hstop
    exact ⟨d, s, by simpa using hcons, hd, hcons ▸ hread _ hstop⟩
  have hspan {r : Text} (hr : Delimited r) := span_digits hrest (hfrac.startsDigit hexp hr)
  cases hfrac with
  | digits hds =>
    obtain ⟨result, hresult⟩ := settles_fraction negative m rest.length hds hexp
    refine ⟨result, fun r hr => ?_⟩
    obtain ⟨d, s, hcons, hd, hread⟩ := hstart hr
    rw [hcons, ← hresult r hr, List.append_assoc]
    exact number_point negative hd hread (hspan hr) rfl
  | none =>
    have hwholes {r : Text} (hr : Delimited r) :
        number negative (whole ++ ([] ++ exp) ++ r) =
          if startsExponent (exp ++ r) then exponent negative m rest.length ((exp ++ r).drop 1)
          else if 0 < rest.length then real negative m rest.length (exp ++ r)
          else if negative then .ok (.real (-(Binary64.ofNat m)), exp ++ r)
          else .ok (.natural m, exp ++ r) := by
      obtain ⟨d, s, hcons, hd, hread⟩ := hstart hr
      rw [hcons]
      exact number_whole negative hd hread (hspan hr) (hexp.ne_point hr)
    obtain ⟨result, hresult⟩ := settles_end negative m rest.length hexp
    cases hexp with
    | digits hx =>
      refine ⟨result, fun r hr => (hwholes hr).trans ?_⟩
      rcases hx with rfl | rfl <;> exact hresult r hr
    | none =>
      by_cases hlong : 0 < rest.length
      · refine ⟨result, fun r hr => ?_⟩
        rw [hwholes hr, if_pos hlong]
        exact hresult r hr
      · refine ⟨.ok (if negative then .real (-(Binary64.ofNat m)) else .natural m), fun r hr => ?_⟩
        rw [hwholes hr, List.nil_append, hr.startsExponent, if_neg hlong]
        cases negative <;> rfl

/-- What is left behind the exponent of a number that nobody asks for. -/
def skipExponent (r : Text) : Except Fault Text :=
  if startsExponent r then
    let r := (Binary64.readSign (r.drop 1)).2
    if startsDigit r then .ok (r.dropWhile Char.isDigit) else .error .syntactic
  else .ok r

/-- What follows the digits and the point is skipped as an exponent. -/
theorem skipNumber_eq {s u : Text}
    (hstart : ((s.takeWhile Char.isDigit).isEmpty ||
      ((s.takeWhile Char.isDigit).head? == some '0' &&
        1 < (s.takeWhile Char.isDigit).length)) = false)
    (hu : (∃ t, s.dropWhile Char.isDigit = '.' :: t ∧ startsDigit t = true ∧
        t.dropWhile Char.isDigit = u) ∨
      s.dropWhile Char.isDigit = u ∧ ∀ r, u ≠ '.' :: r) :
    skipNumber s = skipExponent u := by
  unfold skipNumber skipExponent
  rcases hu with ⟨t, ht, hdigit, rfl⟩ | ⟨rfl, hpoint⟩
  all_goals
    simp only [Bool.false_eq_true, if_false, *, if_true]
    refine if_congr Iff.rfl ?_ rfl
    generalize List.drop 1 _ = v
    fun_cases Binary64.readSign v with
    | case1 => rfl
    | case2 => rfl
    | case3 => simp only

theorem skipExponent_append {exp r : Text} (hexp : IsExponent exp) (hr : Delimited r) :
    skipExponent (exp ++ r) = .ok r := by
  cases hexp with
  | none =>
    rw [List.nil_append, skipExponent, hr.startsExponent]
    rfl
  | @digits x sign ds hx hsign hds =>
    obtain ⟨minus, hminus⟩ := readSign_append hsign hds
    have hstart : startsExponent (x :: (sign ++ ds) ++ r) = true := by
      rcases hx with rfl | rfl <;> rfl
    have hdrop : (x :: (sign ++ ds) ++ r).drop 1 = sign ++ (ds ++ r) := by simp
    have hdigit : startsDigit (ds ++ r) = true := by
      obtain ⟨d, ds, rfl⟩ := List.exists_cons_of_ne_nil hds.1
      exact hds.2 d (by simp)
    simp only [skipExponent, hstart, if_true, hdrop, hminus, hdigit,
      (span_digits hds.2 hr.startsDigit).2]

/-- A number that nobody asks for is skipped. -/
theorem skipNumber_append {s r : Text} (hs : IsMagnitude s) (hr : Delimited r) :
    skipNumber (s ++ r) = .ok r := by
  obtain @⟨whole, frac, exp, hwhole, hzero, hfrac, hexp⟩ := hs
  obtain ⟨hdigits, hbehind⟩ := span_digits hwhole.2 (hfrac.startsDigit hexp hr)
  have hstart : (whole.isEmpty || (whole.head? == some '0' && 1 < whole.length)) = false := by
    have hne : whole.isEmpty = false := by simpa using hwhole.1
    by_cases hhead : whole.head? = some '0'
    · simp [hzero hhead]
    · simp [hne, hhead]
  have hstart : (((whole ++ (frac ++ exp) ++ r).takeWhile Char.isDigit).isEmpty ||
      (((whole ++ (frac ++ exp) ++ r).takeWhile Char.isDigit).head? == some '0' &&
        1 < ((whole ++ (frac ++ exp) ++ r).takeWhile Char.isDigit).length)) = false := by
    rw [List.append_assoc, List.append_assoc, hdigits]
    exact hstart
  have hbehind : (whole ++ (frac ++ exp) ++ r).dropWhile Char.isDigit = frac ++ (exp ++ r) := by
    rw [List.append_assoc, List.append_assoc, hbehind]
  refine (skipNumber_eq hstart ?_).trans (skipExponent_append hexp hr)
  cases hfrac with
  | none => exact .inr ⟨hbehind, hexp.ne_point hr⟩
  | @digits ds hds =>
    have hdigit : startsDigit (ds ++ (exp ++ r)) = true := by
      obtain ⟨d, ds, rfl⟩ := List.exists_cons_of_ne_nil hds.1
      exact hds.2 d (by simp)
    exact .inl ⟨_, hbehind, hdigit, (span_digits hds.2 (hexp.startsDigit hr)).2⟩

end Relength.Json
