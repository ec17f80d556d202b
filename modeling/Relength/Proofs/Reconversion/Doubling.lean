import Relength.Proofs.Formatting
import Relength.Proofs.Numeral.Fraction

/-!
# Lengths that are doubled

Doubling and rounding keep the order of magnitudes. So where a number with a point at its start has
no finite double, no number has one that ends with it and has more digits in front of the point.

* `Conversion.Doubles`: the transform doubles, and no length is too short;
* `Conversion.Doubles.format_fraction`: such a longer number stays if the shorter one does.
-/

namespace Relength

open Token

namespace Binary64

variable {x y : Binary64}

/-- No magnitude is below what is not above zero. -/
theorem AtMost.not_less (h : AtMost x x) {m : Binary64} (hm : zero.less m = false) :
    x.less m = false := by
  cases h with
  | @finite a _ h =>
    cases m with
    | finite negative b =>
      cases negative with
      | true => rfl
      | false =>
        have hb : ¬0 < b.val := of_decide_eq_false hm
        have ha : ¬a.val < b.val := by omega
        exact decide_eq_false ha
    | infinite negative => exact hm
    | nan => rfl
  | infinite => cases m <;> rfl

end Binary64

namespace Conversion

/-- Lengths are doubled, and no magnitude is below the minimum. -/
structure Doubles (c : Conversion) : Prop where
  transform : c.transform = fun x => x * .ofNat 2
  minimum : Binary64.zero.less c.minimum = false

namespace Doubles

variable {c : Conversion} (hc : c.Doubles)

include hc

/-- What is read converts if its double is finite. -/
theorem converted_eq {number : Text} {x : Binary64}
    (h : Binary64.ofText? (splitSign number).2 = some x) (hx : Binary64.AtMost x x) :
    c.converted number =
      if (c.magnitude x).isFinite then
        .number (if (splitSign number).1 then -c.magnitude x else c.magnitude x)
      else .notFinite :=
  converted_of_read h (hx.not_less hc.minimum)

theorem magnitude_mono {x y : Binary64} (h : Binary64.AtMost x y) :
    Binary64.AtMost (c.magnitude x) (c.magnitude y) := by
  simp only [magnitude, hc.transform, Binary64.ofNat_two]
  exact (h.mul_right (by decide)).roundTo c.precision

end Doubles

/-- A converted number does not start with a point. -/
theorem head_format {c : Conversion} {number : Text} {x : Binary64}
    (h : c.converted number = .number x) : (c.format number).head? ≠ some '.' := by
  have hfinite := (of_converted h).2
  simp only [format, h]
  split
  · simp
  · obtain ⟨d, s, hs, hd⟩ : ∃ d s, x.toNumberText = d :: s ∧ d ≠ '.' := by
      rcases Binary64.isSigned_toNumberText hfinite with hdecimal | ⟨t, -, ht⟩
      · obtain ⟨d, s, hs, hd⟩ := hdecimal.head
        refine ⟨d, s, hs, ?_⟩
        rintro rfl
        cases hd
      · exact ⟨'-', t, ht, by decide⟩
    rw [hs]
    simpa using hd

theorem splitSign_append {sign digits : Text} (hsign : IsSign sign)
    (hdigits : ∃ d s, digits = d :: s ∧ (d == '+' || d == '-') = false) :
    (splitSign (sign ++ digits)).2 = digits := by
  obtain ⟨d, s, rfl, hd⟩ := hdigits
  simp only [Bool.or_eq_false_iff, beq_eq_false_iff_ne] at hd
  rcases hsign with rfl | rfl | rfl
  · simp [splitSign, hd]
  · rfl
  · rfl

/-- Where the double of a number that starts with a point is not finite, neither is that of the
number with more digits in front of the point. -/
theorem Doubles.format_fraction {c : Conversion} (hc : c.Doubles)
    {sign whole fraction exponent : Text} (hsign : IsSign sign)
    (hwhole : ∀ c ∈ whole, c.isDigit = true) (hfraction : ∀ c ∈ fraction, c.isDigit = true)
    (hne : fraction ≠ []) (hexponent : exponent.head?.any Char.isDigit = false)
    (h : c.format ('.' :: (fraction ++ exponent)) = '.' :: (fraction ++ exponent) ++ px) :
    c.format (sign ++ whole ++ '.' :: (fraction ++ exponent)) =
      sign ++ whole ++ '.' :: (fraction ++ exponent) ++ px := by
  have hsplit : (splitSign ('.' :: (fraction ++ exponent))).2 = '.' :: (fraction ++ exponent) :=
    rfl
  have hsplit' : (splitSign (sign ++ whole ++ '.' :: (fraction ++ exponent))).2 =
      whole ++ '.' :: (fraction ++ exponent) := by
    rw [List.append_assoc]
    refine splitSign_append hsign ?_
    rcases whole with _ | ⟨d, whole⟩
    · exact ⟨_, _, rfl, rfl⟩
    · exact ⟨d, _, rfl, not_sign_of_isDigit (hwhole d (by simp))⟩
  have hkept (hnumber : ∀ x, c.converted (sign ++ whole ++ '.' :: (fraction ++ exponent)) ≠
      .number x) : c.format (sign ++ whole ++ '.' :: (fraction ++ exponent)) =
        sign ++ whole ++ '.' :: (fraction ++ exponent) ++ px := by
    unfold format
    split
    · next x hx => exact absurd hx (hnumber x)
    · rfl
  refine hkept fun z hz => ?_
  rcases Binary64.cases_fraction hwhole hfraction hne hexponent with
    ⟨-, hnone⟩ | ⟨x, y, hx, hy, hxy⟩
  · have hread := (of_converted hz).1
    rw [hsplit', hnone] at hread
    cases hread
  · rw [hc.converted_eq (by rw [hsplit', hy]) hxy.refl_right] at hz
    split at hz
    · next hfinite =>
      have hshort := hc.converted_eq (by rw [hsplit, hx]) hxy.refl_left
      rw [if_pos ((hc.magnitude_mono hxy).isFinite hfinite)] at hshort
      have hhead := head_format hshort
      rw [h] at hhead
      exact hhead rfl
    · cases hz

end Conversion

end Relength
