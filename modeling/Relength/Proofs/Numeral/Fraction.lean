import Relength.Proofs.Numeral

/-!
# Numbers cut in two

Where text that starts with no name stands behind a digit of a number and belongs to it, it is the
point of the number with what follows, and that is a number by itself.

* `Token.IsNumber.exists_fraction`: how the number is put together.
-/

namespace Relength.Token

/-- A sign or none. -/
def IsSign (s : Text) : Prop := s = [] ∨ s = ['+'] ∨ s = ['-']

theorem isSign_signSpan (s : Text) : IsSign (signSpan s).1 := by
  unfold signSpan
  split
  · split
    · next hc =>
      simp only [Bool.or_eq_true, beq_iff_eq] at hc
      rcases hc with rfl | rfl
      · exact .inr (.inl rfl)
      · exact .inr (.inr rfl)
    · exact .inl rfl
  · exact .inl rfl

theorem fractionSpan_cases (s : Text) :
    fractionSpan s = ([], s) ∨
      ∃ fraction rest, s = '.' :: (fraction ++ rest) ∧ fraction ≠ [] ∧
        (∀ c ∈ fraction, c.isDigit = true) ∧ rest.head?.any Char.isDigit = false ∧
          fractionSpan s = ('.' :: fraction, rest) := by
  unfold fractionSpan
  split
  · next d r =>
    split
    · next hd =>
      obtain ⟨hsplit, hdigits, hrest⟩ :=
        digitSpan_eq_iff.mp (Prod.mk.eta (p := digitSpan (d :: r))).symm
      exact .inr ⟨_, _, congrArg ('.' :: ·) hsplit, digitSpan_ne_nil hd, hdigits, hrest, rfl⟩
    · exact .inl rfl
  · exact .inl rfl

/-- What stands in an exponent behind its letter is a sign and digits. -/
theorem exponentSpan_cases {s : Text} (h : (exponentSpan s).2 = []) :
    s = [] ∨ ∃ c sign digits, s = c :: (sign ++ digits) ∧ isNameChar c = true ∧
      c.isDigit = false ∧ IsSign sign ∧ ∀ d ∈ digits, d.isDigit = true := by
  cases s with
  | nil => exact .inl rfl
  | cons c s =>
    rw [exponentSpan_cons] at h
    split at h
    · next he =>
      simp only [Bool.and_eq_true, Bool.or_eq_true, beq_iff_eq] at he
      refine .inr ⟨c, (signSpan s).1, (digitSpan (signSpan s).2).1, ?_, ?_, ?_, isSign_signSpan s,
        fun d hd => List.mem_takeWhile_imp hd⟩
      · have hrest := digitSpan_append (signSpan s).2
        rw [show (digitSpan (signSpan s).2).2 = [] from h, List.append_nil] at hrest
        rw [hrest, signSpan_append]
      · rcases he.1 with rfl | rfl <;> rfl
      · rcases he.1 with rfl | rfl <;> rfl
    · cases h

section Cut

variable {w b : Text}

theorem isDigit_of_isNameChar (h : b.head?.any isNameChar = false) :
    b.head?.any Char.isDigit = false := by
  cases b with
  | nil => rfl
  | cons c b =>
    simp only [List.head?_cons, Option.any_some, isNameChar, Bool.or_eq_false_iff] at h
    exact h.1.2

/-- Text that does not start with a digit is not cut off inside digits. -/
theorem exists_behind_digits {digits rest : Text} (h : digits ++ rest = w ++ b)
    (hdigits : ∀ c ∈ digits, c.isDigit = true) (hb : b.head?.any Char.isDigit = false)
    (hne : b ≠ []) : ∃ a, w = digits ++ a ∧ rest = a ++ b := by
  rcases List.append_eq_append_iff.mp h with ⟨a, hw, hrest⟩ | ⟨a, rfl, rfl⟩
  · exact ⟨a, hw, hrest⟩
  · rcases a with _ | ⟨c, a⟩
    · exact ⟨[], by simp, rfl⟩
    · rw [List.cons_append, List.head?_cons, Option.any_some, hdigits c (by simp)] at hb
      cases hb

/-- In an exponent such text is cut off behind the letter only. -/
theorem exponent_cut {a : Text} (h : (exponentSpan (a ++ b)).2 = []) (hb : b ≠ [])
    (hname : b.head?.any isNameChar = false) : ∃ c, a = [c] ∧ c.isDigit = false := by
  have hdigit := isDigit_of_isNameChar hname
  obtain hnil | ⟨c, sign, digits, hsplit, hc, hc', hsign, hdigits⟩ := exponentSpan_cases h
  · exact absurd (List.append_eq_nil_iff.mp hnil).2 hb
  · rcases a with _ | ⟨d, a⟩
    · rw [List.nil_append] at hsplit
      rw [hsplit, List.head?_cons, Option.any_some, hc] at hname
      cases hname
    · obtain ⟨rfl, hrest⟩ := List.cons.inj hsplit
      refine ⟨d, ?_, hc'⟩
      rcases a with _ | ⟨e, a⟩
      · rfl
      · -- The text would be cut off inside the digits.
        exfalso
        have hcut {a digits' : Text} (h : a ++ b = digits')
            (hdigits' : ∀ c ∈ digits', c.isDigit = true) : False := by
          obtain ⟨f, b, rfl⟩ := List.exists_cons_of_ne_nil hb
          have hf : f.isDigit = true := hdigits' f (by simp [← h])
          rw [List.head?_cons, Option.any_some, hf] at hdigit
          cases hdigit
        rcases hsign with rfl | rfl | rfl
        · exact hcut hrest hdigits
        · exact hcut (List.cons.inj hrest).2 hdigits
        · exact hcut (List.cons.inj hrest).2 hdigits

/-- Nor is text behind a digit cut off inside a sign. -/
theorem exists_behind_sign {sign rest : Text} (h : sign ++ rest = w ++ b) (hsign : IsSign sign)
    (hw : Lexer.EndsInDigit w) : ∃ v, w = sign ++ v ∧ rest = v ++ b := by
  rcases hsign with rfl | rfl | rfl
  · exact ⟨w, rfl, h⟩
  all_goals
    obtain ⟨x, d, rfl, hd⟩ := hw
    rcases x with _ | ⟨e, x⟩
    · obtain ⟨rfl, -⟩ := List.cons.inj h
      cases hd
    · obtain ⟨rfl, hrest⟩ := List.cons.inj h
      exact ⟨x ++ [d], rfl, hrest⟩

/-- Where a number goes on behind a digit with what is in no name, that is its point. -/
theorem IsNumber.exists_fraction (h : IsNumber (w ++ b)) (hw : Lexer.EndsInDigit w) (hb : b ≠ [])
    (hname : b.head?.any isNameChar = false) :
    ∃ sign whole fraction exponent, IsSign sign ∧ (∀ c ∈ whole, c.isDigit = true) ∧
      fraction ≠ [] ∧ (∀ c ∈ fraction, c.isDigit = true) ∧
      exponent.head?.any Char.isDigit = false ∧ w = sign ++ whole ∧
      b = '.' :: (fraction ++ exponent) ∧ IsNumber b := by
  have hdigit := isDigit_of_isNameChar hname
  -- What the cut leaves of `w` does not end with the letter of an exponent.
  have hlast {a a' : Text} (ha : w = a ++ a') (hexponent : (exponentSpan (a' ++ b)).2 = []) :
      False := by
    obtain ⟨c, rfl, hc⟩ := exponent_cut hexponent hb hname
    obtain ⟨x, d, hx, hd⟩ := hw
    rw [hx] at ha
    rw [← (List.cons.inj (List.append_inj' ha rfl).2).1, hd] at hc
    cases hc
  have hsign := isSign_signSpan (w ++ b)
  have hfirst := signSpan_append (w ++ b)
  have hspan := h.2
  simp only [Token.numberSpan] at hspan
  generalize (signSpan (w ++ b)).1 = sign at hsign hfirst
  generalize (signSpan (w ++ b)).2 = s at hfirst hspan
  obtain ⟨v, rfl, rfl⟩ : ∃ v, w = sign ++ v ∧ s = v ++ b := exists_behind_sign hfirst hsign hw
  have hwhole : ∀ c ∈ (digitSpan (v ++ b)).1, c.isDigit = true :=
    fun c hc => List.mem_takeWhile_imp hc
  obtain ⟨a, hv, hrest⟩ := exists_behind_digits (digitSpan_append (v ++ b)) hwhole hdigit hb
  generalize (digitSpan (v ++ b)).1 = whole at hv hwhole
  rw [hrest] at hspan
  subst hv
  rcases fractionSpan_cases (a ++ b) with
    hnone | ⟨fraction, exponent, hpoint, hne, hfraction, hexponent, hsome⟩
  · rw [hnone] at hspan
    exact (hlast (a := sign ++ whole) (by simp) hspan).elim
  · rw [hsome] at hspan
    rcases a with _ | ⟨c, a⟩
    · rw [List.nil_append] at hpoint hsome
      refine ⟨sign, whole, fraction, exponent, hsign, hwhole, hne, hfraction, hexponent, by simp,
        hpoint, ?_, ?_⟩
      · obtain ⟨d, fraction, rfl⟩ := List.exists_cons_of_ne_nil hne
        rw [hpoint]
        exact hfraction d (by simp)
      · have hsign' : signSpan b = ([], b) := by rw [hpoint]; rfl
        have hwhole' : digitSpan b = ([], b) := by rw [hpoint]; rfl
        rw [Token.numberSpan, hsign', hwhole', hsome]
        exact hspan
    · obtain ⟨rfl, hcut⟩ := List.cons.inj hpoint
      obtain ⟨a', rfl, rfl⟩ := exists_behind_digits hcut.symm hfraction hdigit hb
      exact (hlast (a := sign ++ (whole ++ '.' :: fraction)) (by simp) hspan).elim

end Cut

end Relength.Token
