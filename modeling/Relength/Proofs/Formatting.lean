import Relength.Proofs.Numeral.Shortest

/-!
# What is written for a length

In front of the new unit stands a number that `IsTerse`: no sign but a minus, no exponent, some
digit that is no zero, and no zero at the end behind a point.

* `isTerse_toNumberText`: every finite number but zero is written so;
* `Conversion.format_terse`: a length is left as it is, or becomes a zero, or such a number with the
  unit behind it, and it becomes a zero exactly if it rounds to one.
-/

namespace Relength

/-- A minus or none, digits that are not all zeros, and a point with some of them behind it or
none, where the last digit behind a point is no zero. -/
def IsTerse (s : Text) : Prop :=
  ∃ sign whole fraction, (sign = [] ∨ sign = ['-']) ∧ whole ≠ [] ∧
    (∀ c ∈ whole ++ fraction, c.isDigit = true) ∧ (∃ c ∈ whole ++ fraction, c ≠ '0') ∧
    fraction.getLast? ≠ some '0' ∧
    (fraction = [] ∧ s = sign ++ whole ∨ fraction ≠ [] ∧ s = sign ++ (whole ++ '.' :: fraction))

/-- Nothing terse in front of a unit is a zero by itself. -/
theorem IsTerse.append_ne_zero {s : Text} (h : IsTerse s) (u : Text) : s ++ u ≠ ['0'] := by
  obtain ⟨sign, whole, fraction, hsign, hwhole, -, ⟨c, hc, hne⟩, -, hs⟩ := h
  obtain ⟨d, digits, rfl⟩ := List.exists_cons_of_ne_nil hwhole
  intro hzero
  rcases hsign with rfl | rfl
  · rcases hs with ⟨rfl, rfl⟩ | ⟨-, rfl⟩
    · simp only [List.nil_append, List.cons_append, List.cons.injEq,
        List.append_eq_nil_iff] at hzero
      obtain ⟨rfl, rfl, -⟩ := hzero
      simp [hne] at hc
    · simp at hzero
  · rcases hs with ⟨-, rfl⟩ | ⟨-, rfl⟩
    all_goals
      have hhead := congrArg List.head? hzero
      simp at hhead

namespace Binary64

theorem digitChar_ne_zero {d : Nat} (hd : d < 10) (hne : d ≠ 0) : Nat.digitChar d ≠ '0' := by
  match d with
  | 0 => exact absurd rfl hne
  | 1 | 2 | 3 | 4 | 5 | 6 | 7 | 8 | 9 => decide

theorem exists_digit_ne_zero {n : Nat} (hn : n ≠ 0) : ∃ c ∈ Nat.toDigits 10 n, c ≠ '0' := by
  induction n using Nat.strongRecOn with
  | ind n ih =>
    rcases Nat.lt_or_ge n 10 with hlt | hge
    · rw [Nat.toDigits_of_lt_base hlt]
      exact ⟨_, List.mem_singleton_self _, digitChar_ne_zero hlt hn⟩
    · obtain ⟨c, hc, hne⟩ := ih (n / 10) (by omega) (by omega)
      rw [Nat.toDigits_of_base_le (by omega) hge]
      exact ⟨c, List.mem_append_left _ hc, hne⟩

theorem getLast?_toDigits (n : Nat) : (Nat.toDigits 10 n).getLast? = some (n % 10).digitChar := by
  rcases Nat.lt_or_ge n 10 with hlt | hge
  · rw [Nat.toDigits_of_lt_base hlt, Nat.mod_eq_of_lt hlt]
    rfl
  · rw [Nat.toDigits_of_base_le (by omega) hge, List.getLast?_concat]

/-- The text of a decimal other than zero that has no needless zero. -/
theorem isTerse_toText {d : Decimal} {sign : Text} (hsign : sign = [] ∨ sign = ['-'])
    (hne : d.digits ≠ 0) (hlast : d.exponent < 0 → d.digits % 10 ≠ 0) :
    IsTerse (sign ++ d.toText) := by
  have hdigits := digit_of_mem_toDigits (n := d.digits)
  have hnil : Nat.toDigits 10 d.digits ≠ [] := Nat.toDigits_ne_nil
  obtain ⟨c, hc, hcne⟩ := exists_digit_ne_zero hne
  have hend := getLast?_toDigits d.digits
  have hlast (h : d.exponent < 0) : (Nat.toDigits 10 d.digits).getLast? ≠ some '0' := by
    rw [hend]
    exact fun h' => digitChar_ne_zero (Nat.mod_lt _ (by omega)) (hlast h) (Option.some.inj h')
  have hzeros (n : Nat) : ∀ c ∈ List.replicate n '0', c.isDigit = true := by
    intro c hc
    rw [(List.mem_replicate.mp hc).2]
    rfl
  unfold Decimal.toText
  generalize Nat.toDigits 10 d.digits = digits at hdigits hnil hc hlast
  dsimp only
  split
  · refine ⟨sign, digits ++ List.replicate d.exponent.toNat '0', [], hsign, by simp [hnil],
      ?_, ⟨c, by simp [hc], hcne⟩, by simp, .inl ⟨rfl, rfl⟩⟩
    rw [List.append_nil]
    exact fun c hc => (List.mem_append.mp hc).elim (hdigits c) (hzeros _ c)
  · next hneg =>
    have hlast := hlast (by omega)
    split
    · next hlt =>
      generalize hk : digits.length - (-d.exponent).toNat = k
      have hdrop : digits.drop k ≠ [] := by
        rw [Ne, List.drop_eq_nil_iff]
        omega
      refine ⟨sign, digits.take k, digits.drop k, hsign, ?_, ?_, ⟨c, ?_, hcne⟩, ?_,
        .inr ⟨hdrop, rfl⟩⟩
      · rw [Ne, List.take_eq_nil_iff, not_or]
        exact ⟨by omega, hnil⟩
      · rwa [List.take_append_drop]
      · rwa [List.take_append_drop]
      · rwa [List.getLast?_drop, if_neg (by omega)]
    · refine ⟨sign, ['0'], List.replicate _ '0' ++ digits, hsign, by simp, ?_,
        ⟨c, by simp [hc], hcne⟩, ?_, .inr ⟨by simp [hnil], rfl⟩⟩
      · intro c hc
        rw [List.mem_append, List.mem_singleton, List.mem_append] at hc
        rcases hc with rfl | hc | hc
        · rfl
        · exact hzeros _ c hc
        · exact hdigits c hc
      · rwa [List.getLast?_append_of_ne_nil _ hnil]

/-- Finite numbers but zero are written tersely. -/
theorem isTerse_toNumberText {x : Binary64} (hfinite : x.isFinite = true)
    (hzero : x.isZero = false) : IsTerse x.toNumberText := by
  cases x with
  | nan => cases hfinite
  | infinite negative => cases hfinite
  | finite negative rank =>
    have hrank : rank.val ≠ 0 := by simpa [isZero] using hzero
    have htext : toNumberText (.finite negative rank) =
        (if negative then ['-'] else []) ++ (shortest rank).toText := by
      rw [toNumberText, hzero, toText, magnitudeText, if_neg hrank]
      rfl
    rw [htext]
    refine isTerse_toText ?_ (shortest_digits_ne_zero hrank) (shortest_digits_mod_ten hrank)
    cases negative
    · exact .inl rfl
    · exact .inr rfl

end Binary64

namespace Conversion

variable {c : Conversion} {number : Text} {pixels : Binary64}

/-- The number that is written, but for its sign. -/
def magnitude (c : Conversion) (x : Binary64) : Binary64 := (c.transform x).roundTo c.precision

/-- A number that is read and not too small converts if what it rounds to is finite. -/
theorem converted_of_read (hread : Binary64.ofText? (splitSign number).2 = some pixels)
    (hless : pixels.less c.minimum = false) :
    c.converted number =
      if (c.magnitude pixels).isFinite then
        .number (if (splitSign number).1 then -c.magnitude pixels else c.magnitude pixels)
      else .notFinite := by
  have hfinite :
      (if (splitSign number).1 then -c.magnitude pixels else c.magnitude pixels).isFinite =
        (c.magnitude pixels).isFinite := by
    split
    · exact Binary64.isFinite_neg _
    · rfl
  simp only [converted, hread, hless, Bool.false_eq_true, if_false]
  rw [← hfinite]
  rfl

/-- The text is a zero, or a terse number with the unit, if what the number rounds to is finite. -/
theorem format_of_read (hread : Binary64.ofText? (splitSign number).2 = some pixels)
    (hless : pixels.less c.minimum = false) (hfinite : (c.magnitude pixels).isFinite = true) :
    if (c.magnitude pixels).isZero then c.format number = ['0']
    else ∃ numeral, IsTerse numeral ∧ c.format number = numeral ++ c.unit := by
  have hconverted := converted_of_read hread hless
  rw [if_pos hfinite] at hconverted
  generalize hx : (if (splitSign number).1 then -c.magnitude pixels else c.magnitude pixels) = x
    at hconverted
  have hsame : x.isZero = (c.magnitude pixels).isZero ∧
      x.isFinite = (c.magnitude pixels).isFinite := by
    rw [← hx]
    split
    · exact ⟨Binary64.isZero_neg _, Binary64.isFinite_neg _⟩
    · exact ⟨rfl, rfl⟩
  rw [← hsame.1]
  rw [hfinite] at hsame
  simp only [format, hconverted]
  split
  · rfl
  · next hzero =>
    exact ⟨_, Binary64.isTerse_toNumberText hsame.2 (by simpa using hzero), rfl⟩

/-- A length stays if its number is not read, is too small or rounds to nothing finite. -/
theorem format_of_not_finite (h : ∀ pixels, Binary64.ofText? (splitSign number).2 = some pixels →
    pixels.less c.minimum = false → (c.magnitude pixels).isFinite = false) :
    c.format number = number ++ px := by
  cases hread : Binary64.ofText? (splitSign number).2 with
  | none => simp only [format, converted, hread]
  | some pixels =>
    cases hless : pixels.less c.minimum with
    | true => simp only [format, converted, hread, hless, if_true]
    | false =>
      have hconverted := converted_of_read hread hless
      rw [h pixels hread hless] at hconverted
      simp only [format, hconverted, Bool.false_eq_true, if_false]

theorem append_px_ne_zero (number : Text) : number ++ px ≠ ['0'] := by
  intro h
  have hlast := congrArg List.getLast? h
  simp [px] at hlast

/-- A length is left as it is, or becomes a zero, or a terse number in front of the new unit. It
becomes a zero exactly if its number is read without the sign, is not below the minimum and rounds
to a zero behind the transform, and such a number if what it rounds to is finite and no zero. -/
theorem format_terse (c : Conversion) (number : Text) :
    (c.format number = number ++ px ∨ c.format number = ['0'] ∨
      ∃ numeral, IsTerse numeral ∧ c.format number = numeral ++ c.unit) ∧
    (c.format number = ['0'] ↔
      ∃ pixels, Binary64.ofText? (splitSign number).2 = some pixels ∧
        pixels.less c.minimum = false ∧ (c.magnitude pixels).isZero = true) ∧
    ∀ pixels, Binary64.ofText? (splitSign number).2 = some pixels →
      pixels.less c.minimum = false → (c.magnitude pixels).isFinite = true →
        (c.magnitude pixels).isZero = false →
          ∃ numeral, IsTerse numeral ∧ c.format number = numeral ++ c.unit := by
  by_cases hkept : ∀ pixels, Binary64.ofText? (splitSign number).2 = some pixels →
      pixels.less c.minimum = false → (c.magnitude pixels).isFinite = false
  · have hformat := format_of_not_finite hkept
    refine ⟨.inl hformat, ⟨fun hzero => ?_, ?_⟩, fun pixels hread hless hfinite _ => ?_⟩
    · exact absurd (hformat.symm.trans hzero) (append_px_ne_zero number)
    · rintro ⟨pixels, hread, hless, hzero⟩
      have hfinite := Binary64.isFinite_of_isZero hzero
      rw [hkept pixels hread hless] at hfinite
      cases hfinite
    · rw [hkept pixels hread hless] at hfinite
      cases hfinite
  · obtain ⟨pixels, hread, hless, hfinite⟩ : ∃ pixels,
        Binary64.ofText? (splitSign number).2 = some pixels ∧ pixels.less c.minimum = false ∧
          (c.magnitude pixels).isFinite = true := by
      simpa using hkept
    have hformat := format_of_read hread hless hfinite
    have hsame (pixels' : Binary64)
        (hread' : Binary64.ofText? (splitSign number).2 = some pixels') : pixels' = pixels :=
      Option.some.inj (hread'.symm.trans hread)
    cases hzero : (c.magnitude pixels).isZero with
    | true =>
      rw [if_pos hzero] at hformat
      refine ⟨.inr (.inl hformat), ⟨fun _ => ⟨pixels, hread, hless, hzero⟩, fun _ => hformat⟩,
        fun pixels' hread' _ _ hzero' => ?_⟩
      rw [hsame pixels' hread', hzero] at hzero'
      cases hzero'
    | false =>
      rw [if_neg (by simp [hzero])] at hformat
      obtain ⟨numeral, hterse, hnumeral⟩ := hformat
      refine ⟨.inr (.inr ⟨numeral, hterse, hnumeral⟩), ⟨fun hzero' => ?_, ?_⟩,
        fun _ _ _ _ _ => ⟨numeral, hterse, hnumeral⟩⟩
      · exact absurd (hnumeral.symm.trans hzero') (hterse.append_ne_zero c.unit)
      · rintro ⟨pixels', hread', -, hzero'⟩
        rw [hsame pixels' hread', hzero] at hzero'
        cases hzero'

/-- A tiny length becomes a zero without its sign and its unit, a greater one keeps both. -/
theorem format_terse_tiny :
    let c : Conversion := ⟨"rpx".toList, 5, .zero, fun x => x * .ofNat 2⟩
    c.format "-0.000001".toList = ['0'] ∧
      ∃ numeral, IsTerse numeral ∧ c.format "-.2".toList = numeral ++ "rpx".toList := by
  refine ⟨(format_terse _ _).2.1.mpr ⟨.finite false ⟨4517329193108106637, by decide⟩, ?_, ?_, ?_⟩,
    (format_terse _ _).2.2 (.finite false ⟨4596373779694328218, by decide⟩) ?_ ?_ ?_ ?_⟩
  all_goals decide +kernel

end Conversion

end Relength
