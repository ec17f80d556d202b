import Mathlib.Tactic.Linarith
import Mathlib.Tactic.Ring
import Relength.Proofs.Numeral

/-!
# The order of magnitudes

`Binary64.AtMost` orders the floating point numbers without a sign, with the infinity behind all
others. Every operation that the rounding of lengths is made of keeps the order, as each of them
rounds a quotient of whole numbers of units to the nearest magnitude.

* `Binary64.nearestRank_mono`: rounding to a magnitude keeps the order of quotients;
* `Binary64.AtMost.roundTo`: so does rounding to decimal places;
* `Binary64.cases_fraction`: with more digits in front of its point a literal is no less.
-/

namespace Relength.Binary64

/-! ## Rounding to a rank -/

theorem div_le_div_of_ratio {n d n' d' : Nat} (hd : 0 < d) (hd' : 0 < d') (h : n * d' ≤ n' * d) :
    n / d ≤ n' / d' := by
  rw [Nat.le_div_iff_mul_le hd']
  have hle : n / d * d ≤ n := Nat.div_mul_le_self n d
  refine Nat.le_of_mul_le_mul_right ?_ hd
  calc n / d * d' * d = n / d * d * d' := by ring
    _ ≤ n * d' := Nat.mul_le_mul_right d' hle
    _ ≤ n' * d := h

theorem roundHalfEven_ge (n d : Nat) : n / d ≤ roundHalfEven n d := by
  simp only [roundHalfEven]
  split
  · exact Nat.le_refl _
  · split <;> omega

theorem roundHalfEven_le (n d : Nat) : roundHalfEven n d ≤ n / d + 1 := by
  simp only [roundHalfEven]
  split
  · omega
  · split <;> omega

theorem roundHalfEven_mono {n d n' d' : Nat} (hd : 0 < d) (hd' : 0 < d') (h : n * d' ≤ n' * d) :
    roundHalfEven n d ≤ roundHalfEven n' d' := by
  rcases Nat.lt_or_eq_of_le (div_le_div_of_ratio hd hd' h) with hlt | heq
  · exact (roundHalfEven_le n d).trans (Nat.le_trans hlt (roundHalfEven_ge n' d'))
  · -- With the same whole part, the remainders decide.
    have hn := Nat.div_add_mod n d
    have hn' := Nat.div_add_mod n' d'
    simp only [roundHalfEven]
    rw [← heq] at hn' ⊢
    generalize n / d = q at *
    generalize n % d = a at *
    generalize n' % d' = b at *
    have hrest : a * d' ≤ b * d := by
      rw [← hn, ← hn'] at h
      nlinarith
    by_cases hlow : 2 * a < d
    · rw [if_pos hlow]
      split
      · exact Nat.le_refl _
      · split <;> omega
    · rw [if_neg hlow]
      have hb : ¬2 * b < d' := by
        intro hb
        nlinarith
      rw [if_neg hb]
      by_cases hhigh : d < 2 * a
      · have hb' : d' < 2 * b := by
          by_contra hb'
          nlinarith
        rw [if_pos hhigh, if_pos hb']
      · rw [if_neg hhigh]
        split <;> omega

theorem nearestRank_eq (n d : Nat) :
    nearestRank n d = ((n / d).log2 - 52) * 2 ^ 52 +
      roundHalfEven n (d * 2 ^ ((n / d).log2 - 52)) := rfl

theorem log2_mono {a b : Nat} (h : a ≤ b) : a.log2 ≤ b.log2 := by
  rcases Nat.eq_zero_or_pos a with rfl | ha
  · simp
  · rw [Nat.le_log2 (by omega)]
    exact (Nat.log2_self_le (by omega)).trans h

/-- The digits that are kept, rounded, are 53 at most. -/
theorem roundHalfEven_scaled_le {n d s : Nat} (hs : (n / d).log2 ≤ 52 + s) :
    roundHalfEven n (d * 2 ^ s) ≤ 2 ^ 53 := by
  have hq : n / d < 2 ^ (53 + s) :=
    Nat.lt_log2_self.trans_le (Nat.pow_le_pow_right (by omega) (by omega))
  have hscaled : n / (d * 2 ^ s) < 2 ^ 53 := by
    rw [← Nat.div_div_eq_div_mul, Nat.div_lt_iff_lt_mul (by positivity), ← Nat.pow_add]
    exact hq
  exact (roundHalfEven_le _ _).trans hscaled

/-- They are 53, if there are more. -/
theorem le_roundHalfEven_scaled {n d s : Nat} (hs : (n / d).log2 = 52 + s) :
    2 ^ 52 ≤ roundHalfEven n (d * 2 ^ s) := by
  have hne : n / d ≠ 0 := by
    intro hzero
    rw [hzero, Nat.log2_zero] at hs
    omega
  have hq : 2 ^ (52 + s) ≤ n / d := hs ▸ Nat.log2_self_le hne
  have hscaled : 2 ^ 52 ≤ n / (d * 2 ^ s) := by
    rw [← Nat.div_div_eq_div_mul, Nat.le_div_iff_mul_le (by positivity), ← Nat.pow_add]
    exact hq
  exact hscaled.trans (roundHalfEven_ge _ _)

/-- Rounding keeps the order of quotients. -/
theorem nearestRank_mono {n d n' d' : Nat} (hd : 0 < d) (hd' : 0 < d') (h : n * d' ≤ n' * d) :
    nearestRank n d ≤ nearestRank n' d' := by
  have hlog := log2_mono (div_le_div_of_ratio hd hd' h)
  rw [nearestRank_eq, nearestRank_eq]
  rcases Nat.lt_or_eq_of_le (Nat.sub_le_sub_right hlog 52) with hlt | heq
  · have hlow : roundHalfEven n (d * 2 ^ ((n / d).log2 - 52)) ≤ 2 ^ 53 :=
      roundHalfEven_scaled_le (by omega)
    have hhigh : 2 ^ 52 ≤ roundHalfEven n' (d' * 2 ^ ((n' / d').log2 - 52)) :=
      le_roundHalfEven_scaled (by omega)
    have hstep : ((n / d).log2 - 52 + 1) * 2 ^ 52 ≤ ((n' / d').log2 - 52) * 2 ^ 52 :=
      Nat.mul_le_mul_right _ hlt
    omega
  · rw [← heq]
    refine Nat.add_le_add_left (roundHalfEven_mono (by positivity) (by positivity) ?_) _
    calc n * (d' * 2 ^ ((n / d).log2 - 52)) = n * d' * 2 ^ ((n / d).log2 - 52) := by ring
      _ ≤ n' * d * 2 ^ ((n / d).log2 - 52) := Nat.mul_le_mul_right _ h
      _ = n' * (d * 2 ^ ((n / d).log2 - 52)) := by ring

theorem units_eq (rank : Nat) :
    units rank = if rank / 2 ^ 52 = 0 then rank % 2 ^ 52
      else (2 ^ 52 + rank % 2 ^ 52) * 2 ^ (rank / 2 ^ 52 - 1) := rfl

theorem units_mono {a b : Nat} (h : a ≤ b) : units a ≤ units b := by
  rw [units_eq, units_eq]
  have hdiv : a / 2 ^ 52 ≤ b / 2 ^ 52 := Nat.div_le_div_right h
  have ha := Nat.div_add_mod a (2 ^ 52)
  have hb := Nat.div_add_mod b (2 ^ 52)
  have hfraction := Nat.mod_lt a (y := 2 ^ 52) (by positivity)
  rcases Nat.lt_or_eq_of_le hdiv with hlt | heq
  · have hb0 : b / 2 ^ 52 ≠ 0 := by omega
    rw [if_neg hb0]
    -- The least magnitude with a greater exponent is above all with the smaller one.
    have hleast : 2 ^ 52 * 2 ^ (b / 2 ^ 52 - 1) ≤
        (2 ^ 52 + b % 2 ^ 52) * 2 ^ (b / 2 ^ 52 - 1) := Nat.mul_le_mul_right _ (by omega)
    refine Nat.le_trans ?_ hleast
    split
    · have hone : 1 ≤ 2 ^ (b / 2 ^ 52 - 1) := Nat.one_le_two_pow
      exact hfraction.le.trans (Nat.le_mul_of_pos_right _ hone)
    · next hne =>
      have hpow : 2 ^ (a / 2 ^ 52) ≤ 2 ^ (b / 2 ^ 52 - 1) :=
        Nat.pow_le_pow_right (by omega) (by omega)
      have hsplit : 2 ^ (a / 2 ^ 52) = 2 * 2 ^ (a / 2 ^ 52 - 1) := by
        rw [← Nat.pow_succ']
        congr 1
        omega
      calc (2 ^ 52 + a % 2 ^ 52) * 2 ^ (a / 2 ^ 52 - 1)
          ≤ (2 ^ 52 + 2 ^ 52) * 2 ^ (a / 2 ^ 52 - 1) := Nat.mul_le_mul_right _ (by omega)
        _ = 2 ^ 52 * 2 ^ (a / 2 ^ 52) := by rw [hsplit]; ring
        _ ≤ 2 ^ 52 * 2 ^ (b / 2 ^ 52 - 1) := Nat.mul_le_mul_left _ hpow
  · rw [← heq]
    split
    · omega
    · exact Nat.mul_le_mul_right _ (by omega)

theorem units_pos {rank : Nat} (h : rank ≠ 0) : 0 < units rank :=
  Nat.lt_of_lt_of_le (by decide) (units_mono (a := 1) (by omega))

/-! ## The order of magnitudes -/

/-- Magnitudes in their order, with the infinity behind all others. -/
inductive AtMost : Binary64 → Binary64 → Prop where
  | finite {a b : Fin limit} (h : a.val ≤ b.val) : AtMost (.finite false a) (.finite false b)
  | below (a : Fin limit) : AtMost (.finite false a) (.infinite false)
  | infinite : AtMost (.infinite false) (.infinite false)

variable {x y : Binary64}

theorem AtMost.refl_left (h : AtMost x y) : AtMost x x := by
  cases h with
  | finite => exact .finite (Nat.le_refl _)
  | below => exact .finite (Nat.le_refl _)
  | infinite => exact .infinite

theorem AtMost.refl_right (h : AtMost x y) : AtMost y y := by
  cases h with
  | finite => exact .finite (Nat.le_refl _)
  | below => exact .infinite
  | infinite => exact .infinite

theorem AtMost.isFinite (h : AtMost x y) (hy : y.isFinite = true) : x.isFinite = true := by
  cases h with
  | finite => rfl
  | below => cases hy
  | infinite => cases hy

theorem atMost_ofRatio {n d n' d' : Nat} (h : nearestRank n d ≤ nearestRank n' d') :
    AtMost (ofRatio false n d) (ofRatio false n' d') := by
  unfold ofRatio
  split
  · split
    · exact .finite h
    · exact .below _
  · rw [dif_neg (by omega)]
    exact .infinite

theorem atMost_infinite (n d : Nat) : AtMost (ofRatio false n d) (.infinite false) := by
  unfold ofRatio
  split
  · exact .below _
  · exact .infinite

/-- An operation that rounds quotients of whole numbers of units keeps the order. -/
theorem AtMost.map {f : Binary64 → Binary64} (g : Nat → Nat) (d : Nat) (h : AtMost x y)
    (hd : 0 < d) (hg : ∀ m n, m ≤ n → g m ≤ g n)
    (hfinite : ∀ a, f (.finite false a) = ofRatio false (g (units a)) d)
    (hinfinite : f (.infinite false) = .infinite false) : AtMost (f x) (f y) := by
  cases h with
  | finite h =>
    rw [hfinite, hfinite]
    exact atMost_ofRatio
      (nearestRank_mono hd hd (Nat.mul_le_mul_right d (hg _ _ (units_mono h))))
  | below a =>
    rw [hfinite, hinfinite]
    exact atMost_infinite _ _
  | infinite =>
    rw [hinfinite]
    exact .infinite

theorem one_pos : 0 < one := by decide +kernel

theorem finite_mul_finite (a b : Fin limit) :
    Binary64.finite false a * .finite false b = ofRatio false (units a * units b) one := by
  change mul _ _ = _
  simp only [mul, bne_self_eq_false]

section Positive

variable {r : Fin limit} (hr : r.val ≠ 0)

include hr

theorem AtMost.mul_right (h : AtMost x y) : AtMost (x * .finite false r) (y * .finite false r) := by
  exact h.map (f := (· * .finite false r)) (· * units r) one one_pos
    (fun m n hmn => Nat.mul_le_mul_right _ hmn) (fun a => finite_mul_finite a r) (if_neg hr)

theorem AtMost.div_right (h : AtMost x y) : AtMost (x / .finite false r) (y / .finite false r) := by
  exact h.map (f := (· / .finite false r)) (· * one) (units r) (units_pos hr)
    (fun m n hmn => Nat.mul_le_mul_right _ hmn) (fun a => if_neg hr) rfl

end Positive

theorem AtMost.truncate (h : AtMost x y) : AtMost x.truncate y.truncate :=
  h.map (fun n => n / one * one) 1 Nat.one_pos
    (fun _ _ hmn => Nat.mul_le_mul_right _ (Nat.div_le_div_right hmn)) (fun _ => rfl) rfl

theorem AtMost.round (h : AtMost x y) : AtMost x.round y.round :=
  h.map (fun n => (2 * n + one) / (2 * one) * one) 1 Nat.one_pos
    (fun _ _ hmn => Nat.mul_le_mul_right _ (Nat.div_le_div_right (by omega))) (fun _ => rfl) rfl

/-! ## The scale of a precision -/

theorem ofNat_one : ofNat 1 = .finite false ⟨1023 * Nat.pow 2 52, by decide⟩ := by decide +kernel

theorem ofNat_two : ofNat 2 = .finite false ⟨1024 * Nat.pow 2 52, by decide⟩ := by decide +kernel

theorem ofNat_ten : ofNat 10 = .finite false ⟨1026 * Nat.pow 2 52 + Nat.pow 2 50, by decide⟩ := by
  decide +kernel

theorem units_one : units (1023 * Nat.pow 2 52) = one := by
  decide +kernel

/-- What is 1 or above has a rank to show it, unless it is the infinity. -/
theorem cases_of_one_le (h : AtMost (ofNat 1) x) :
    (∃ a : Fin limit, x = .finite false a ∧ a.val ≠ 0 ∧ one ≤ units a) ∨ x = .infinite false := by
  rw [ofNat_one] at h
  cases h with
  | @finite _ a h =>
    refine .inl ⟨a, rfl, ?_, ?_⟩
    · have hpos : 0 < 1023 * Nat.pow 2 52 := by decide
      exact (Nat.lt_of_lt_of_le hpos h).ne'
    · exact units_one.symm.le.trans (units_mono h)
  | below => exact .inr rfl

/-- Products of numbers from 1 on are from 1 on. -/
theorem one_le_mul (hx : AtMost (ofNat 1) x) (hy : AtMost (ofNat 1) y) :
    AtMost (ofNat 1) (x * y) := by
  obtain ⟨a, rfl, ha, hone⟩ | rfl := cases_of_one_le hx
  · obtain ⟨b, rfl, hb, hone'⟩ | rfl := cases_of_one_le hy
    · rw [finite_mul_finite]
      refine atMost_ofRatio (nearestRank_mono Nat.one_pos one_pos ?_)
      calc 1 * one * one = one * one := by rw [Nat.one_mul]
        _ ≤ units a * units b := Nat.mul_le_mul hone hone'
        _ = units a * units b * 1 := (Nat.mul_one _).symm
    · have hproduct : Binary64.finite false a * .infinite false = .infinite false := if_neg ha
      rw [hproduct]
      exact atMost_infinite _ _
  · have hproduct : Binary64.infinite false * y = .infinite false := by
      obtain ⟨b, rfl, hb, -⟩ | rfl := cases_of_one_le hy
      · exact if_neg hb
      · rfl
    rw [hproduct]
    exact atMost_infinite _ _

theorem one_le_mulPow (hx : AtMost (ofNat 1) x) (hy : AtMost (ofNat 1) y) (n : Nat) :
    AtMost (ofNat 1) (mulPow x y n) := by
  fun_induction mulPow x y n with
  | case1 => exact hx
  | case2 x y n hn ih =>
    refine ih ?_ (one_le_mul hy hy)
    split
    · exact one_le_mul hx hy
    · exact hx

theorem one_le_scale (precision : Nat) : AtMost (ofNat 1) (scale precision) := by
  have hone : AtMost (ofNat 1) (ofNat 1) := by
    rw [ofNat_one]
    exact .finite (Nat.le_refl _)
  have hten : AtMost (ofNat 1) (ofNat 10) := by
    rw [ofNat_one, ofNat_ten]
    exact .finite (by decide)
  exact one_le_mulPow hone hten _

/-- A scale that is finite is 1 or above. -/
theorem exists_scale {precision : Nat} (h : (scale precision).isFinite = true) :
    ∃ r : Fin limit, r.val ≠ 0 ∧ one ≤ units r ∧ scale precision = .finite false r := by
  obtain ⟨r, hr, hne, hle⟩ | hinfinite := cases_of_one_le (one_le_scale precision)
  · exact ⟨r, hne, hle, hr⟩
  · rw [hinfinite] at h
    cases h

theorem abs_of_atMost (h : AtMost x x) : x.abs = x ∧ x.isNegative = false := by
  cases h <;> exact ⟨rfl, rfl⟩

theorem roundTo_of_scale {precision : Nat} {r : Fin limit}
    (h : scale precision = .finite false r) (x : Binary64) :
    x.roundTo precision =
      (((x.abs * .finite false r).truncate / ofNat 10).round * ofNat 10 /
        .finite false r).withSign x.isNegative := by
  simp only [Binary64.roundTo, h]
  rfl

theorem roundTo_of_infinite_scale {precision : Nat} (h : ¬(scale precision).isFinite = true)
    (x : Binary64) : x.roundTo precision = x := by
  simp only [Binary64.roundTo, h]
  rfl

theorem ten_ne_zero :
    (⟨1026 * Nat.pow 2 52 + Nat.pow 2 50, by decide⟩ : Fin limit).val ≠ 0 := by
  decide

/-- Rounding to decimal places keeps the order. -/
theorem AtMost.roundTo (h : AtMost x y) (precision : Nat) :
    AtMost (x.roundTo precision) (y.roundTo precision) := by
  have hsigned {x y : Binary64} (h : AtMost x y) :
      AtMost (x.withSign false) (y.withSign false) := by
    cases h with
    | finite h => exact .finite h
    | below a => exact .below a
    | infinite => exact .infinite
  by_cases hscale : (scale precision).isFinite = true
  · obtain ⟨r, hr, -, heq⟩ := exists_scale hscale
    obtain ⟨hx, hx'⟩ := abs_of_atMost h.refl_left
    obtain ⟨hy, hy'⟩ := abs_of_atMost h.refl_right
    rw [roundTo_of_scale heq, roundTo_of_scale heq, hx, hx', hy, hy', ofNat_ten]
    exact hsigned ((((h.mul_right hr).truncate.div_right ten_ne_zero).round.mul_right
      ten_ne_zero).div_right hr)
  · rw [roundTo_of_infinite_scale hscale, roundTo_of_infinite_scale hscale]
    exact h

/-! ## Decimal literals -/

theorem roundHalfEven_eq_zero {n d : Nat} (h : 2 * n < d) : roundHalfEven n d = 0 := by
  have hdiv : n / d = 0 := Nat.div_eq_of_lt (by omega)
  have hmod : n % d = n := Nat.mod_eq_of_lt (by omega)
  simp only [roundHalfEven, hdiv, hmod, if_pos h]

theorem nearestRank_eq_zero {n d : Nat} (h : 2 * n < d) : nearestRank n d = 0 := by
  have hdiv : n / d = 0 := Nat.div_eq_of_lt (by omega)
  rw [nearestRank_eq, hdiv, roundHalfEven_eq_zero (by simpa using h)]
  simp

/-- What is divided by so great a power of ten is next to nothing. -/
theorem nearestRank_beyond (m : Nat) {n : Nat} (hn : 4 * one < Nat.pow 10 n) :
    nearestRank (m * one) (Nat.pow 10 (m.log2 + n)) = 0 := by
  refine nearestRank_eq_zero ?_
  have hpow : Nat.pow 10 (m.log2 + n) = 10 ^ m.log2 * Nat.pow 10 n := Nat.pow_add ..
  have hdigits : m < 2 ^ (m.log2 + 1) := Nat.lt_log2_self
  rw [hpow]
  calc 2 * (m * one) ≤ 2 * (2 ^ (m.log2 + 1) * one) :=
        Nat.mul_le_mul_left _ (Nat.mul_le_mul_right _ hdigits.le)
    _ = 2 ^ m.log2 * (4 * one) := by ring
    _ ≤ 10 ^ m.log2 * (4 * one) := Nat.mul_le_mul_right _ (Nat.pow_le_pow_left (by omega) _)
    _ < 10 ^ m.log2 * Nat.pow 10 n := Nat.mul_lt_mul_of_pos_left hn (by positivity)

/-- With one exponent more digits make no less. -/
theorem atMost_ofDecimal {m n : Nat} (h : m ≤ n) (e : Int) :
    AtMost (ofDecimal false m e) (ofDecimal false n e) := by
  unfold ofDecimal
  split
  · refine atMost_ofRatio (nearestRank_mono Nat.one_pos Nat.one_pos ?_)
    exact Nat.mul_le_mul_right _ (Nat.mul_le_mul_right _ (Nat.mul_le_mul_right _ h))
  · refine atMost_ofRatio ?_
    have hlog := log2_mono h
    by_cases hbound : (-e).toNat ≤ m.log2 + 400
    · rw [Nat.min_eq_left hbound, Nat.min_eq_left (by omega)]
      exact nearestRank_mono (Nat.pow_pos (by omega)) (Nat.pow_pos (by omega))
        (Nat.mul_le_mul_right _ (Nat.mul_le_mul_right _ h))
    · have hbeyond : 4 * one < Nat.pow 10 400 := by decide +kernel
      rw [Nat.min_eq_right (by omega), nearestRank_beyond m hbeyond]
      exact Nat.zero_le _

theorem decimalValue_append (a b : Text) :
    Text.decimalValue b ≤ Text.decimalValue (a ++ b) := by
  have hmono (b : Text) {m n : Nat} (h : m ≤ n) :
      b.foldl (fun n d => n * 10 + (d.toNat - '0'.toNat)) m ≤
        b.foldl (fun n d => n * 10 + (d.toNat - '0'.toNat)) n := by
    induction b generalizing m n with
    | nil => exact h
    | cons d b ih => exact ih (Nat.add_le_add_right (Nat.mul_le_mul_right 10 h) _)
  rw [Text.decimalValue, Text.decimalValue, List.foldl_append]
  exact hmono b (Nat.zero_le _)

section Fraction

variable {whole fraction exponent : Text} (hwhole : ∀ c ∈ whole, c.isDigit = true)
  (hfraction : ∀ c ∈ fraction, c.isDigit = true) (hne : fraction ≠ [])
  (hexponent : exponent.head?.any Char.isDigit = false)

include hwhole hfraction hne hexponent

theorem ofText?_fraction : ofText? (whole ++ '.' :: (fraction ++ exponent)) =
    (readExponent? exponent).map fun e =>
      ofDecimal false (Text.decimalValue (whole ++ fraction)) (e - fraction.length) := by
  have hsign : readSign (whole ++ '.' :: (fraction ++ exponent)) =
      (false, whole ++ '.' :: (fraction ++ exponent)) := by
    rcases whole with _ | ⟨c, whole⟩
    · rfl
    · have hsign := not_sign_of_isDigit (hwhole c (by simp))
      simp only [Bool.or_eq_false_iff, beq_eq_false_iff_ne] at hsign
      simp [readSign, hsign]
  have hname {w : Text} (hw : '.' ∉ w) :
      ((whole ++ '.' :: (fraction ++ exponent)).map Char.toLower == w) = false := by
    rw [beq_eq_false_iff_ne]
    rintro rfl
    exact hw (List.mem_map.mpr ⟨'.', by simp, rfl⟩)
  have hinf : '.' ∉ "inf".toList ∧ '.' ∉ "infinity".toList ∧ '.' ∉ "nan".toList := by decide
  have hpoint : Token.digitSpan (whole ++ '.' :: (fraction ++ exponent)) =
      (whole, '.' :: (fraction ++ exponent)) := Token.digitSpan_eq_iff.mpr ⟨rfl, hwhole, rfl⟩
  have hrest : Token.digitSpan (fraction ++ exponent) = (fraction, exponent) :=
    Token.digitSpan_eq_iff.mpr ⟨rfl, hfraction, hexponent⟩
  obtain ⟨hpoint₁, hpoint₂⟩ := Prod.mk.inj hpoint
  obtain ⟨hrest₁, hrest₂⟩ := Prod.mk.inj hrest
  simp only [ofText?, hsign, hname hinf.1, hname hinf.2.1, hname hinf.2.2, readDigits?, hpoint₁,
    hpoint₂, hrest₁, hrest₂]
  simp [hne]

/-- More digits in front of the point make no less, and keep no literal from being read. -/
theorem cases_fraction :
    (ofText? ('.' :: (fraction ++ exponent)) = none ∧
      ofText? (whole ++ '.' :: (fraction ++ exponent)) = none) ∨
    ∃ x y, ofText? ('.' :: (fraction ++ exponent)) = some x ∧
      ofText? (whole ++ '.' :: (fraction ++ exponent)) = some y ∧ AtMost x y := by
  have hshort : ofText? ('.' :: (fraction ++ exponent)) = (readExponent? exponent).map fun e =>
      ofDecimal false (Text.decimalValue fraction) (e - fraction.length) := by
    have hnil : ∀ c ∈ ([] : Text), c.isDigit = true := by simp
    exact ofText?_fraction hnil hfraction hne hexponent
  have hlong := ofText?_fraction hwhole hfraction hne hexponent
  cases he : readExponent? exponent with
  | none => exact .inl ⟨by rw [hshort, he]; rfl, by rw [hlong, he]; rfl⟩
  | some e =>
    refine .inr ⟨_, _, by rw [hshort, he]; rfl, by rw [hlong, he]; rfl, ?_⟩
    exact atMost_ofDecimal (decimalValue_append whole fraction) _

end Fraction

end Relength.Binary64
