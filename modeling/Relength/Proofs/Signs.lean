import Relength.Proofs.Formatting
import Relength.Proofs.Numeral.Fraction

/-!
# Lengths with other signs

The minimum, the transform and the rounding see a length without its sign. So a length with a plus
is converted like one without, and one with a minus comes out with the other sign, if it converts at
all: negation keeps numbers finite, and it keeps zeros, which are written without a sign.

* `Conversion.converted_plus`, `Conversion.converted_minus`: what becomes of the three lengths;
* `Conversion.format_signs`: what is written for them.
-/

namespace Relength

open Token

/-- The text with a minus in front of it, or without the one that it starts with. -/
def Text.opposite : Text → Text
  | '-' :: s => s
  | s => '-' :: s

theorem Text.opposite_append {s : Text} (h : s ≠ []) (u : Text) :
    opposite (s ++ u) = opposite s ++ u := by
  obtain ⟨c, s, rfl⟩ := List.exists_cons_of_ne_nil h
  rw [List.cons_append]
  unfold opposite
  split
  · next heq => cases heq; rfl
  · next hne =>
    split
    · next heq => cases heq; exact absurd rfl (hne _)
    · rfl

theorem Text.opposite_of_digit {c : Char} (hc : c.isDigit = true) (s : Text) :
    opposite (c :: s) = '-' :: c :: s := by
  unfold opposite
  split
  · next heq => cases heq; cases hc
  · rfl

/-- What becomes of a length with the other sign. -/
def Converted.opposite : Converted → Converted
  | .number x => .number (-x)
  | kept => kept

theorem Binary64.head_magnitudeText (rank : Nat) :
    ∃ c s, magnitudeText rank = c :: s ∧ c.isDigit = true := by
  unfold magnitudeText
  split
  · exact ⟨'0', [], rfl, rfl⟩
  · exact (isDecimal_toText _).head

/-- The text of a finite number and that of its negative differ in the minus only. -/
theorem Binary64.toNumberText_neg {x : Binary64} (hfinite : x.isFinite = true)
    (hzero : x.isZero = false) : (-x).toNumberText = Text.opposite x.toNumberText := by
  have hzero' : (-x).isZero = false := (isZero_neg x).trans hzero
  simp only [toNumberText, hzero, hzero', Bool.false_eq_true, if_false]
  cases x with
  | nan => cases hfinite
  | infinite negative => cases hfinite
  | finite negative rank =>
    obtain ⟨c, s, htext, hc⟩ := head_magnitudeText rank
    cases negative with
    | true => rfl
    | false =>
      change '-' :: magnitudeText rank = Text.opposite (magnitudeText rank)
      rw [htext, Text.opposite_of_digit hc]

namespace Conversion

variable (c : Conversion) {digits : Text}

section Unsigned

variable (hdigits : ∀ d ∈ digits.head?, d ≠ '+' ∧ d ≠ '-')

include hdigits

theorem splitSign_unsigned : splitSign digits = (false, digits) := by
  cases digits with
  | nil => rfl
  | cons d digits =>
    obtain ⟨hplus, hminus⟩ := hdigits d rfl
    simp [splitSign, hplus, hminus]

theorem converted_plus : c.converted ('+' :: digits) = c.converted digits := by
  have hsplit : splitSign ('+' :: digits) = splitSign digits := (splitSign_unsigned hdigits).symm
  rw [converted, converted, hsplit]

theorem converted_minus : c.converted ('-' :: digits) = (c.converted digits).opposite := by
  have hminus : splitSign ('-' :: digits) = (true, digits) := rfl
  cases hread : Binary64.ofText? digits with
  | none => simp only [converted, hminus, splitSign_unsigned hdigits, hread, Converted.opposite]
  | some pixels =>
    cases hless : pixels.less c.minimum with
    | true =>
      simp only [converted, hminus, splitSign_unsigned hdigits, hread, hless, if_true,
        Converted.opposite]
    | false =>
      have hread' : Binary64.ofText? (splitSign ('-' :: digits)).2 = some pixels := hread
      have hread'' : Binary64.ofText? (splitSign digits).2 = some pixels := by
        rw [splitSign_unsigned hdigits, hread]
      rw [converted_of_read hread' hless, converted_of_read hread'' hless, hminus,
        splitSign_unsigned hdigits]
      split <;> rfl

/-- Of a length without a sign, with a plus and with a minus all three stay as they are, or all
three convert. Then the plus changes nothing, and the minus adds a minus to what is written or takes
it away, unless that is a zero. -/
theorem format_signs :
    (∀ sign, IsSign sign → (∀ x, c.converted (sign ++ digits) ≠ .number x) ∧
      c.format (sign ++ digits) = sign ++ digits ++ px) ∨
    (∀ sign, IsSign sign → ∃ x, c.converted (sign ++ digits) = .number x) ∧
      c.format ('+' :: digits) = c.format digits ∧
      c.format ('-' :: digits) =
        if c.format digits = ['0'] then ['0'] else Text.opposite (c.format digits) := by
  have hplus := c.converted_plus hdigits
  have hminus := c.converted_minus hdigits
  by_cases hnumber : ∃ x, c.converted digits = .number x
  · obtain ⟨x, hx⟩ := hnumber
    rw [hx] at hplus hminus
    have hfinite : x.isFinite = true := (of_converted hx).2
    refine .inr ⟨?_, ?_, ?_⟩
    · rintro sign (rfl | rfl | rfl)
      · exact ⟨x, hx⟩
      · exact ⟨x, hplus⟩
      · exact ⟨-x, hminus⟩
    · simp only [format, hplus, hx]
    · cases hzero : x.isZero with
      | true => simp [format, hminus, hx, Converted.opposite, hzero]
      | false =>
        have hterse := Binary64.isTerse_toNumberText hfinite hzero
        have hne : x.toNumberText ≠ [] := (Binary64.isSigned_toNumberText hfinite).isNumber.ne_nil
        have hformat : c.format digits = x.toNumberText ++ c.unit := by simp [format, hx, hzero]
        rw [hformat, if_neg (hterse.append_ne_zero c.unit), Text.opposite_append hne,
          ← Binary64.toNumberText_neg hfinite hzero]
        simp [format, hminus, Converted.opposite, hzero]
  · have hkept : ∀ sign, IsSign sign → c.converted (sign ++ digits) = c.converted digits := by
      rintro sign (rfl | rfl | rfl)
      · rfl
      · exact hplus
      · refine hminus.trans ?_
        cases hd : c.converted digits with
        | number x => exact absurd ⟨x, hd⟩ hnumber
        | _ => rfl
    refine .inl fun sign hsign => ?_
    rw [hkept sign hsign]
    refine ⟨not_exists.mp hnumber, ?_⟩
    have hsame := hkept sign hsign
    unfold format
    split
    · next x hx => exact absurd ⟨x, hsame ▸ hx⟩ hnumber
    · rfl

end Unsigned

/-- A length of half a pixel converts with each sign. -/
theorem format_signs_half :
    let c : Conversion := ⟨"rpx".toList, 5, .zero, fun x => x * .ofNat 2⟩
    (∀ d ∈ ".5".toList.head?, d ≠ '+' ∧ d ≠ '-') ∧
      (∃ x, c.converted ('-' :: ".5".toList) = .number x) ∧
      c.format ('+' :: ".5".toList) = c.format ".5".toList ∧
      c.format ('-' :: ".5".toList) = Text.opposite (c.format ".5".toList) := by
  intro c
  have hdigits : ∀ d ∈ ".5".toList.head?, d ≠ '+' ∧ d ≠ '-' := by simp
  have hconverted : c.converted ".5".toList = .number (.ofNat 1) := by decide +kernel
  have hformat : c.format ".5".toList ≠ ['0'] := by decide +kernel
  rcases c.format_signs hdigits with hkept | ⟨hnumber, hplus, hminus⟩
  · exact absurd hconverted ((hkept [] (.inl rfl)).1 _)
  · exact ⟨hdigits, hnumber ['-'] (.inr (.inr rfl)), hplus, hminus.trans (if_neg hformat)⟩

end Conversion

end Relength
