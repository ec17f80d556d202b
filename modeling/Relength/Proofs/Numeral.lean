import Relength.Proofs.Locality.Lengths
import Relength.Proofs.Respelling.Conversion

/-!
# Numbers by themselves

A text `IsNumber` if a number takes all of it, as those do that stand in tokens
(`Token.numberSpan_self`) and those that are written for converted lengths
(`IsSigned.isNumber`).
-/

namespace Relength

namespace Token

/-- A number takes the whole text. -/
def IsNumber (s : Text) : Prop := startsNumber s = true ∧ (numberSpan s).2 = []

theorem IsNumber.numberSpan {s : Text} (h : IsNumber s) : numberSpan s = (s, []) := by
  have happend := numberSpan_append s
  rw [h.2, List.append_nil] at happend
  rw [Prod.ext_iff]
  exact ⟨happend, h.2⟩

theorem IsNumber.ne_nil {s : Text} (h : IsNumber s) : s ≠ [] := by
  rintro rfl
  cases h.1

theorem IsNumber.endsInDigit {s : Text} (h : IsNumber s) : Lexer.EndsInDigit s := by
  have hends := Lexer.endsInDigit_numberSpan h.1
  rwa [h.numberSpan] at hends

/-- A character with which no number goes on is in none. -/
theorem IsNumber.not_ends {w r : Text} {c : Char} (hc : endsNumber c = true) :
    ¬IsNumber (w ++ c :: r) := by
  intro h
  have hspan := h.2
  rw [numberSpan_end hc] at hspan
  simp at hspan

theorem IsNumber.unescaped {s : Text} (h : IsNumber s) : '\\' ∉ s := by
  intro hmem
  obtain ⟨w, r, rfl⟩ := List.append_of_mem hmem
  exact not_ends (by decide) h

/-! ## The number of a token -/

/-- What a scanner takes it takes as well if less is left. -/
def Truncates (f : Text → Text × Text) : Prop :=
  ∀ x y y', f (x ++ y) = (x, y) → y' <+: y → f (x ++ y') = (x, y')

variable {f g : Text → Text × Text}

/-- Two scanners, one behind the other, on a text and on one with less left. -/
theorem Truncates.bind_apply (hf : Truncates f) (hg : Truncates g)
    (hgs : ∀ s, (g s).1 ++ (g s).2 = s) {x y y' : Text}
    (hx : (f (x ++ y)).1 ++ (g (f (x ++ y)).2).1 = x) (hy : (g (f (x ++ y)).2).2 = y)
    (hy' : y' <+: y) :
    ∃ a b, x = a ++ b ∧ f (x ++ y) = (a, b ++ y) ∧ g (b ++ y) = (b, y) ∧
      f (x ++ y') = (a, b ++ y') ∧ g (b ++ y') = (b, y') := by
  have hleft := hgs (f (x ++ y)).2
  rw [hy] at hleft
  have hfirst : f (x ++ y) = ((f (x ++ y)).1, (g (f (x ++ y)).2).1 ++ y) := by rw [hleft]
  have hsecond : g ((g (f (x ++ y)).2).1 ++ y) = ((g (f (x ++ y)).2).1, y) := by
    rw [hleft]
    exact Prod.ext rfl hy
  generalize (f (x ++ y)).1 = a at hx hfirst
  generalize (g (f (x ++ y)).2).1 = b at hx hfirst hsecond
  subst hx
  refine ⟨a, b, rfl, hfirst, hsecond, ?_, hg b y y' hsecond hy'⟩
  rw [List.append_assoc] at hfirst ⊢
  exact hf a (b ++ y) (b ++ y') hfirst ((List.prefix_append_right_inj b).mpr hy')

theorem Truncates.bind (hf : Truncates f) (hg : Truncates g)
    (hgs : ∀ s, (g s).1 ++ (g s).2 = s) :
    Truncates fun s => ((f s).1 ++ (g (f s).2).1, (g (f s).2).2) := by
  intro x y y' h hy
  obtain ⟨hx, hleft⟩ := Prod.mk.inj h
  obtain ⟨a, b, rfl, -, -, hfirst, hsecond⟩ := hf.bind_apply hg hgs hx hleft hy
  simp only [hfirst, hsecond]

theorem head?_of_prefix {y y' : Text} (h : y' <+: y) : y' = [] ∨ y'.head? = y.head? := by
  obtain ⟨z, rfl⟩ := h
  cases y' with
  | nil => exact .inl rfl
  | cons c y' => exact .inr rfl

theorem truncates_signSpan : Truncates signSpan := by
  intro x y y' h hy
  rcases x with _ | ⟨c, x⟩
  · rcases y' with _ | ⟨d, y'⟩
    · rfl
    · obtain ⟨z, rfl⟩ := hy
      by_cases hd : (d == '+' || d == '-') = true
      · simp [signSpan, hd] at h
      · simp [signSpan, hd]
  · by_cases hc : (c == '+' || c == '-') = true
    · simp only [List.cons_append, signSpan, if_pos hc, Prod.mk.injEq, List.cons.injEq] at h
      obtain ⟨⟨-, rfl⟩, -⟩ := h
      simp [signSpan, hc]
    · simp [signSpan, hc] at h

theorem digitSpan_eq_iff {s x y : Text} :
    digitSpan s = (x, y) ↔
      s = x ++ y ∧ (∀ c ∈ x, c.isDigit = true) ∧ y.head?.any Char.isDigit = false := by
  constructor
  · intro h
    have happend := digitSpan_append s
    rw [h] at happend
    obtain ⟨rfl, rfl⟩ := Prod.mk.inj h
    refine ⟨happend.symm, fun c hc => List.mem_takeWhile_imp hc, ?_⟩
    have hhead := List.head?_dropWhile_not Char.isDigit s
    cases hs : (s.dropWhile Char.isDigit).head? with
    | none => rfl
    | some c => simpa [hs] using hhead
  · rintro ⟨rfl, hx, hy⟩
    induction x with
    | nil =>
      cases y with
      | nil => rfl
      | cons d y =>
        have hd : d.isDigit = false := hy
        simp [digitSpan, hd]
    | cons c x ih =>
      have := ih fun d hd => hx d (by simp [hd])
      simp only [digitSpan, Prod.mk.injEq] at this
      simp [digitSpan, hx c (by simp), this]

theorem truncates_digitSpan : Truncates digitSpan := by
  intro x y y' h hy
  obtain ⟨-, hx, hdigit⟩ := digitSpan_eq_iff.mp h
  refine digitSpan_eq_iff.mpr ⟨rfl, hx, ?_⟩
  rcases head?_of_prefix hy with rfl | hhead
  · rfl
  · rw [hhead, hdigit]

theorem truncates_fractionSpan : Truncates fractionSpan := by
  intro x y y' h hy
  rcases x with _ | ⟨c, x⟩
  · rcases y' with _ | ⟨d, y'⟩
    · rfl
    · obtain ⟨z, rfl⟩ := hy
      by_cases hd : d = '.'
      · subst hd
        rw [List.nil_append, List.cons_append, fractionSpan_point] at h
        rw [List.nil_append, fractionSpan_point]
        split at h
        · cases (Prod.mk.inj h).1
        · next hdigit =>
          rw [if_neg]
          cases y' with
          | nil => simp
          | cons e y' => exact hdigit
      · rw [List.nil_append, fractionSpan_of_ne hd]
  · by_cases hc : c = '.'
    · subst hc
      rw [List.cons_append, fractionSpan_point] at h
      rw [List.cons_append, fractionSpan_point]
      split at h
      · next hdigit =>
        obtain ⟨hx, hy'⟩ := Prod.mk.inj h
        have hspan : digitSpan (x ++ y) = (x, y) := Prod.ext (List.cons.inj hx).2 hy'
        rw [truncates_digitSpan x y y' hspan hy, if_pos]
        cases x with
        | nil =>
          rw [digitSpan_eq_iff] at hspan
          rw [List.nil_append, hspan.2.2] at hdigit
          cases hdigit
        | cons d x => exact hdigit
      · cases (Prod.mk.inj h).1
    · rw [List.cons_append, fractionSpan_of_ne hc] at h
      cases (Prod.mk.inj h).1

theorem truncates_exponentSpan : Truncates exponentSpan := by
  intro x y y' h hy
  rcases x with _ | ⟨c, x⟩
  · rcases y' with _ | ⟨d, y'⟩
    · rfl
    · obtain ⟨z, rfl⟩ := hy
      rw [List.nil_append, List.cons_append, exponentSpan_cons] at h
      rw [List.nil_append, exponentSpan_cons]
      split at h
      · cases (Prod.mk.inj h).1
      · next hnot =>
        -- With less behind it the exponent has no more digits.
        have hdigits : (digitSpan (signSpan (y' ++ z)).2).1 = [] →
            (digitSpan (signSpan y').2).1 = [] := by
          cases y' with
          | nil => exact fun _ => rfl
          | cons e y' =>
            rw [← List.isEmpty_iff, ← List.isEmpty_iff, List.cons_append, isEmpty_digits,
              isEmpty_digits]
            split
            · cases y' <;> simp
            · exact id
        rw [if_neg]
        intro hexponent
        simp only [Bool.and_eq_true, Bool.not_eq_true', List.isEmpty_eq_false_iff] at hnot hexponent
        exact hnot ⟨hexponent.1, fun hempty => hexponent.2 (hdigits hempty)⟩
  · rw [List.cons_append, exponentSpan_cons] at h
    rw [List.cons_append, exponentSpan_cons]
    split at h
    · next hexponent =>
      obtain ⟨hx, hy'⟩ := Prod.mk.inj h
      obtain ⟨sign, digits, rfl, hsign, hdigits, hsign', hdigits'⟩ :=
        truncates_signSpan.bind_apply truncates_digitSpan digitSpan_append
          (List.cons.inj hx).2 hy' hy
      rw [hsign, hdigits] at hexponent
      simp only [exponentTail, hsign', hdigits', if_pos hexponent]
    · cases (Prod.mk.inj h).1

theorem truncates_numberSpan : Truncates numberSpan :=
  ((truncates_signSpan.bind truncates_digitSpan digitSpan_append).bind truncates_fractionSpan
    fractionSpan_append).bind truncates_exponentSpan exponentSpan_append

/-- The number in a token is one by itself. -/
theorem numberSpan_self {s r : Text} (h : numberSpan (s ++ r) = (s, r)) :
    numberSpan s = (s, []) := by
  simpa using truncates_numberSpan s r [] h (List.nil_prefix)

/-! ## Numbers in front of other text -/

/-- A number without a point and an exponent. -/
def isWhole (number : Text) : Bool := number.all fun c => c.isDigit || c == '+' || c == '-'

/-- A point with a digit behind it. -/
def startsFraction : Text → Bool
  | '.' :: d :: _ => d.isDigit
  | _ => false

/-- No number goes on with the text, but for a point with digits. -/
def Quits (r : Text) : Prop :=
  r.head?.any (fun c => c.isDigit || c == 'e' || c == 'E') = false

theorem fractionSpan_of_startsFraction {r : Text} (h : startsFraction r = false) :
    fractionSpan r = ([], r) := by
  unfold startsFraction at h
  split at h
  · simp [fractionSpan, h]
  · next hnone =>
    unfold fractionSpan
    split
    · exact absurd rfl (hnone _ _)
    · rfl

section Quits

variable {w r : Text}

theorem Quits.isDigit (h : Quits r) : r.head?.any Char.isDigit = false := by
  cases r with
  | nil => rfl
  | cons c r =>
    simp only [Quits, List.head?_cons, Option.any_some, Bool.or_eq_false_iff] at h
    exact h.1.1

theorem Quits.exponentSpan_eq (h : Quits r) : exponentSpan r = ([], r) := by
  cases r with
  | nil => rfl
  | cons c r =>
    simp only [Quits, List.head?_cons, Option.any_some, Bool.or_eq_false_iff] at h
    simp [exponentSpan, h.1.2, h.2]

theorem signSpan_append_right (hw : w ≠ []) (r : Text) :
    signSpan (w ++ r) = ((signSpan w).1, (signSpan w).2 ++ r) := by
  rcases w with _ | ⟨d, w⟩
  · exact absurd rfl hw
  · by_cases hd : (d == '+' || d == '-') = true <;> simp [signSpan, hd]

variable (hr : Quits r)

include hr

theorem digitSpan_quits (w : Text) :
    digitSpan (w ++ r) = ((digitSpan w).1, (digitSpan w).2 ++ r) := by
  obtain ⟨hsplit, hdigits, hdigit⟩ := digitSpan_eq_iff.mp (Prod.mk.eta (p := digitSpan w)).symm
  refine digitSpan_eq_iff.mpr ⟨?_, hdigits, ?_⟩
  · rw [← List.append_assoc, ← hsplit]
  · cases hrest : (digitSpan w).2 with
    | nil => exact hr.isDigit
    | cons c rest => rwa [hrest] at hdigit

theorem fractionSpan_quits (hw : w ≠ []) :
    fractionSpan (w ++ r) = ((fractionSpan w).1, (fractionSpan w).2 ++ r) := by
  obtain ⟨d, w, rfl⟩ := List.exists_cons_of_ne_nil hw
  have hhead : (w ++ r).head?.any Char.isDigit = w.head?.any Char.isDigit := by
    cases w with
    | nil => exact hr.isDigit
    | cons e w => rfl
  by_cases hd : d = '.'
  · subst hd
    rw [List.cons_append, fractionSpan_point, fractionSpan_point, hhead, digitSpan_quits hr]
    split <;> rfl
  · rw [List.cons_append, fractionSpan_of_ne hd, fractionSpan_of_ne hd, List.cons_append]

/-- An exponent that takes the whole text has its digits there. -/
theorem exponentSpan_quits (hw : (exponentSpan w).2 = []) :
    exponentSpan (w ++ r) = ((exponentSpan w).1, r) := by
  rcases w with _ | ⟨d, w⟩
  · exact hr.exponentSpan_eq
  · rw [exponentSpan_cons] at hw
    split at hw
    · next he =>
      have hne : w ≠ [] := by
        rintro rfl
        simp [signSpan, digitSpan] at he
      rw [List.cons_append, exponentSpan_cons, exponentSpan_cons, if_pos he]
      simp only [exponentTail] at hw ⊢
      rw [signSpan_append_right hne, digitSpan_quits hr, if_pos he, hw]
      rfl
    · cases hw

end Quits

/-- A number without a point and an exponent is a sign and digits. -/
theorem rest_of_isWhole {s : Text} (h : (numberSpan s).2 = []) (hwhole : isWhole s = true) :
    (digitSpan (signSpan s).2).2 = [] := by
  have hsplit :
      (signSpan s).1 ++ ((digitSpan (signSpan s).2).1 ++ (digitSpan (signSpan s).2).2) = s := by
    rw [digitSpan_append, signSpan_append]
  simp only [numberSpan] at h
  have hdigit := (digitSpan_eq_iff.mp (Prod.mk.eta (p := digitSpan (signSpan s).2)).symm).2.2
  cases hrest : (digitSpan (signSpan s).2).2 with
  | nil => rfl
  | cons c rest =>
    rw [hrest] at hsplit h hdigit
    -- What goes on with the digits is a point or the letter of an exponent.
    have hc : (c.isDigit || c == '+' || c == '-') = true :=
      List.all_eq_true.mp hwhole c (by rw [← hsplit]; simp)
    exfalso
    by_cases hpoint : c = '.'
    · subst hpoint
      cases hc
    · rw [fractionSpan_of_ne hpoint, exponentSpan_cons] at h
      split at h
      · next he =>
        simp only [Bool.and_eq_true, Bool.or_eq_true, beq_iff_eq] at he
        rcases he.1 with rfl | rfl <;> cases hc
      · cases h

theorem isWhole_of_rest {s : Text} (h : (digitSpan (signSpan s).2).2 = []) : isWhole s = true := by
  have hsplit : (signSpan s).1 ++ (digitSpan (signSpan s).2).1 = s := by
    have happend := digitSpan_append (signSpan s).2
    rw [h, List.append_nil] at happend
    rw [happend, signSpan_append]
  rw [← hsplit, isWhole, List.all_append, Bool.and_eq_true, List.all_eq_true, List.all_eq_true]
  constructor
  · intro c hc
    unfold signSpan at hc
    split at hc
    · split at hc
      · next hsign =>
        rw [List.mem_singleton.mp hc, Bool.or_assoc, hsign, Bool.or_true]
      · cases hc
    · cases hc
  · intro c hc
    have hdigit : c.isDigit = true := List.mem_takeWhile_imp hc
    simp [hdigit]

/-- A number is one in front of other text as well, unless it goes on with a point. -/
theorem numberSpan_quits {s r : Text} (hspan : numberSpan s = (s, [])) (hne : s ≠ [])
    (hr : Quits r) (hpoint : (isWhole s && startsFraction r) = false) :
    numberSpan (s ++ r) = (s, r) := by
  simp only [numberSpan, Prod.mk.injEq] at hspan ⊢
  rw [signSpan_append_right hne, digitSpan_quits hr]
  cases hrest : (digitSpan (signSpan s).2).2 with
  | nil =>
    rw [isWhole_of_rest hrest, Bool.true_and] at hpoint
    rw [hrest] at hspan
    rw [List.nil_append, fractionSpan_of_startsFraction hpoint, hr.exponentSpan_eq]
    exact ⟨hspan.1, rfl⟩
  | cons c rest =>
    rw [hrest] at hspan
    rw [fractionSpan_quits hr (by simp), exponentSpan_quits hr hspan.2]
    exact ⟨hspan.1, rfl⟩

/-- A number without a point and an exponent takes a number that starts with a point. -/
theorem IsNumber.numberSpan_fraction {s r : Text} (h : IsNumber s) (hwhole : isWhole s = true)
    (hr : startsFraction r = true) :
    Token.numberSpan (s ++ r) = (s ++ (Token.numberSpan r).1, (Token.numberSpan r).2) := by
  obtain ⟨d, u, rfl⟩ : ∃ d u, r = '.' :: d :: u := by
    unfold startsFraction at hr
    split at hr
    · exact ⟨_, _, rfl⟩
    · cases hr
  have hrest := rest_of_isWhole h.2 hwhole
  have hsplit : (signSpan s).1 ++ (digitSpan (signSpan s).2).1 = s := by
    have happend := digitSpan_append (signSpan s).2
    rw [hrest, List.append_nil] at happend
    rw [happend, signSpan_append]
  have hdigits : digitSpan ((signSpan s).2 ++ '.' :: d :: u) =
      ((digitSpan (signSpan s).2).1, '.' :: d :: u) := by
    rw [digitSpan_quits (r := '.' :: d :: u) rfl, hrest]
    rfl
  have hsign : signSpan ('.' :: d :: u) = ([], '.' :: d :: u) := rfl
  have hwhole' : digitSpan ('.' :: d :: u) = ([], '.' :: d :: u) := rfl
  simp only [Token.numberSpan, signSpan_append_right h.ne_nil, hdigits, hsplit, hsign, hwhole']
  simp

end Token

/-! ## Decimals -/

open Token

theorem IsDecimal.head {s : Text} (h : IsDecimal s) : ∃ c r, s = c :: r ∧ c.isDigit = true := by
  obtain ⟨whole, fraction, hne, hwhole, -, h⟩ := h
  obtain ⟨c, r, rfl⟩ := List.exists_cons_of_ne_nil hne
  rcases h with rfl | ⟨-, rfl⟩
  · exact ⟨c, r, rfl, hwhole c (by simp)⟩
  · exact ⟨c, _, rfl, hwhole c (by simp)⟩

theorem not_sign_of_isDigit {c : Char} (h : c.isDigit = true) : (c == '+' || c == '-') = false := by
  have hne (d : Char) (hd : d.isDigit = false) : c ≠ d := by
    rintro rfl
    rw [hd] at h
    cases h
  simp [hne '+' rfl, hne '-' rfl]

theorem IsDecimal.isNumber {s : Text} (h : IsDecimal s) : IsNumber s := by
  obtain ⟨c, r, hs, hc⟩ := h.head
  have hsign := not_sign_of_isDigit hc
  have hspan : signSpan s = ([], s) := by
    rw [hs, signSpan, if_neg (by simp [hsign])]
  refine ⟨?_, ?_⟩
  · have hne : c ≠ '.' := by
      rintro rfl
      cases hc
    rw [hs]
    simp [startsNumber, startsUnsigned, hsign, hne, hc]
  · obtain ⟨whole, fraction, -, hwhole, hfraction, h⟩ := h
    simp only [Token.numberSpan, hspan]
    rcases h with rfl | ⟨hne, rfl⟩
    · rw [digitSpan_eq_iff.mpr ⟨(List.append_nil s).symm, hwhole, rfl⟩]
      rfl
    · have hdigit : fraction.head?.any Char.isDigit = true := by
        obtain ⟨d, t, rfl⟩ := List.exists_cons_of_ne_nil hne
        exact hfraction d (by simp)
      rw [digitSpan_eq_iff.mpr ⟨rfl, hwhole, rfl⟩, fractionSpan_point, if_pos hdigit,
        digitSpan_eq_iff.mpr ⟨(List.append_nil fraction).symm, hfraction, rfl⟩]
      rfl

theorem IsSigned.isNumber {s : Text} (h : IsSigned s) : IsNumber s := by
  rcases h with h | ⟨t, h, rfl⟩
  · exact h.isNumber
  · obtain ⟨hstarts, hspan⟩ := h.isNumber
    obtain ⟨c, r, rfl, hc⟩ := h.head
    have hsign := not_sign_of_isDigit hc
    refine ⟨?_, ?_⟩
    · simpa [startsNumber, hsign] using hstarts
    · have hsplit : signSpan (c :: r) = ([], c :: r) := by
        rw [signSpan, if_neg (by simp [hsign])]
      simp only [Token.numberSpan, hsplit] at hspan
      exact hspan

end Relength
