import Relength.Proofs.Numeral.Shortest

/-!
# Nearest magnitudes

`nearestRank` finds the magnitude that a quotient of units rounds to, and there is one only. So a
quotient that is a magnitude is its own nearest, and whole numbers of up to 53 binary digits in
front of zeros are magnitudes.

* `Binary64.rounds_nearestRank`, `Binary64.Rounds.unique`: the nearest magnitude;
* `Binary64.nearestRank_units`: magnitudes are exact;
* `Binary64.exists_units`: the whole numbers that are magnitudes.
-/

namespace Relength.Binary64

/-- Half a step to each side, and to the sides of an odd number less. -/
theorem roundHalfEven_spec (n : Nat) {d : Nat} (hd : 0 < d) :
    2 * (roundHalfEven n d * d) ≤ 2 * n + d ∧ 2 * n ≤ 2 * (roundHalfEven n d * d) + d ∧
      (roundHalfEven n d % 2 = 1 →
        2 * (roundHalfEven n d * d) < 2 * n + d ∧ 2 * n < 2 * (roundHalfEven n d * d) + d) := by
  have hdiv := Nat.div_add_mod n d
  have hmod := Nat.mod_lt n hd
  simp only [roundHalfEven]
  generalize n / d = q at hdiv ⊢
  generalize n % d = r at hdiv hmod ⊢
  have hnext : (q + 1) * d = d * q + d := by ring
  have hsame : q * d = d * q := Nat.mul_comm q d
  by_cases hlow : 2 * r < d
  · rw [if_pos hlow, hsame]
    omega
  · rw [if_neg hlow]
    by_cases hhigh : d < 2 * r
    · rw [if_pos hhigh, hnext]
      omega
    · rw [if_neg hhigh]
      rcases Nat.mod_two_eq_zero_or_one q with heven | hodd
      · rw [heven, Nat.add_zero, hsame]
        omega
      · rw [hodd, hnext]
        omega

/-- Behind so many ranks, the ranks step by a power of two. -/
theorem units_scaled {s q : Nat} (hq : q ≤ 2 ^ 53) (hs : s = 0 ∨ 2 ^ 52 ≤ q) :
    units (s * 2 ^ 52 + q) = q * 2 ^ s := by
  rw [units_eq]
  rcases Nat.lt_or_ge q (2 ^ 52) with hlt | hge
  · obtain rfl : s = 0 := hs.resolve_right (by omega)
    rw [if_pos (by omega)]
    omega
  · rcases Nat.lt_or_eq_of_le hq with hlt | rfl
    · have hdiv : (s * 2 ^ 52 + q) / 2 ^ 52 = s + 1 := by omega
      have hmod : 2 ^ 52 + (s * 2 ^ 52 + q) % 2 ^ 52 = q := by omega
      rw [hdiv, if_neg (Nat.succ_ne_zero s), hmod, Nat.add_sub_cancel]
    · have hdiv : (s * 2 ^ 52 + 2 ^ 53) / 2 ^ 52 = s + 1 + 1 := by omega
      have hmod : (s * 2 ^ 52 + 2 ^ 53) % 2 ^ 52 = 0 := by omega
      rw [hdiv, if_neg (Nat.succ_ne_zero (s + 1)), hmod, Nat.add_sub_cancel, Nat.pow_succ]
      ring

/-- The next rank is at least so much further up. -/
theorem le_units_succ {s q : Nat} (hq : q ≤ 2 ^ 53) (hs : s = 0 ∨ 2 ^ 52 ≤ q) :
    (q + 1) * 2 ^ s ≤ units (s * 2 ^ 52 + q + 1) := by
  rw [units_succ, units_scaled hq hs, Nat.add_mul, Nat.one_mul, step]
  exact Nat.add_le_add_left (Nat.pow_le_pow_right (by omega) (by omega)) _

/-- The rank below is so much further down, or half as much where the steps change. -/
theorem units_pred {s q : Nat} (hq : q ≤ 2 ^ 53) (hs : s = 0 ∨ 2 ^ 52 ≤ q) (hpos : 0 < q) :
    units (s * 2 ^ 52 + q - 1) + 2 ^ s = q * 2 ^ s ∨
      0 < s ∧ q = 2 ^ 52 ∧ units (s * 2 ^ 52 + q - 1) < q * 2 ^ s := by
  obtain ⟨r, rfl⟩ : ∃ r, q = r + 1 := ⟨q - 1, by omega⟩
  have hunits := units_succ (s * 2 ^ 52 + r)
  rw [Nat.add_assoc, units_scaled hq hs] at hunits
  rw [← Nat.add_assoc, Nat.add_sub_cancel, hunits]
  by_cases hchange : 0 < s ∧ r + 1 = 2 ^ 52
  · exact .inr ⟨hchange.1, hchange.2, Nat.lt_add_of_pos_right (step_pos _)⟩
  · have hexponent : (s * 2 ^ 52 + r) / 2 ^ 52 - 1 = s := by omega
    exact .inl (by rw [step, hexponent])

/-- A quotient of units rounds to the magnitude nearest to it. -/
theorem rounds_nearestRank (n : Nat) {d : Nat} (hd : 0 < d) : Rounds (nearestRank n d) n d := by
  rw [nearestRank_eq]
  generalize hs : (n / d).log2 - 52 = s
  have hscaled : 0 < d * 2 ^ s := Nat.mul_pos hd (Nat.two_pow_pos s)
  obtain ⟨hlow, hhigh, hodd⟩ := roundHalfEven_spec n hscaled
  have hle : roundHalfEven n (d * 2 ^ s) ≤ 2 ^ 53 := roundHalfEven_scaled_le (by omega)
  have hnormal : s = 0 ∨ (n / d).log2 = 52 + s := by omega
  have hge : s = 0 ∨ 2 ^ 52 ≤ roundHalfEven n (d * 2 ^ s) :=
    hnormal.imp_right le_roundHalfEven_scaled
  generalize roundHalfEven n (d * 2 ^ s) = q at hlow hhigh hodd hle hge ⊢
  have hscale (m : Nat) : m * (d * 2 ^ s) = m * 2 ^ s * d := by ring
  rw [hscale] at hlow hhigh hodd
  have hparity : (s * 2 ^ 52 + q) % 2 = q % 2 := by omega
  have hup : q * 2 ^ s * d + d * 2 ^ s ≤ units (s * 2 ^ 52 + q + 1) * d := by
    calc q * 2 ^ s * d + d * 2 ^ s = (q + 1) * 2 ^ s * d := by ring
      _ ≤ _ := Nat.mul_le_mul_right d (le_units_succ hle hge)
  unfold Rounds
  rw [hparity, units_scaled hle hge, Nat.add_mul, Nat.add_mul]
  rcases Nat.eq_zero_or_pos q with rfl | hpos
  · obtain rfl : s = 0 := hge.resolve_right (by omega)
    rw [if_pos rfl]
    have hzero : units (0 * 2 ^ 52 + 0 - 1) = 0 := rfl
    rw [hzero]
    omega
  · rcases units_pred hle hge hpos with hdown | ⟨hs', rfl, hdown⟩
    · have hdown : units (s * 2 ^ 52 + q - 1) * d + d * 2 ^ s = q * 2 ^ s * d := by
        rw [← hdown]
        ring
      split <;> omega
    · -- Below the least magnitude with these steps the half step is shorter.
      have hquotient : 2 ^ (52 + s) ≤ n / d := by
        rcases hnormal with rfl | hlog
        · omega
        · rw [← hlog]
          refine Nat.log2_self_le ?_
          intro hzero
          rw [hzero, Nat.log2_zero] at hlog
          omega
      have hleast : 2 ^ 52 * 2 ^ s * d ≤ n := by
        rw [← Nat.pow_add]
        exact (Nat.le_div_iff_mul_le hd).mp hquotient
      have hdown : units (s * 2 ^ 52 + 2 ^ 52 - 1) * d < 2 ^ 52 * 2 ^ s * d :=
        Nat.mul_lt_mul_of_pos_right hdown hd
      have heven : 2 ^ 52 % 2 = 0 := rfl
      rw [if_pos heven]
      omega

/-- No quotient rounds to two magnitudes. -/
theorem Rounds.unique {a b n d : Nat} (hd : 0 < d) (ha : Rounds a n d) (hb : Rounds b n d) :
    a = b := by
  have hlt {a b : Nat} (hab : a < b) (ha : Rounds a n d) (hb : Rounds b n d) : False := by
    have hfirst : units a * d ≤ units (b - 1) * d := Nat.mul_le_mul_right d (units_mono (by omega))
    have hsecond : units (a + 1) * d ≤ units b * d := Nat.mul_le_mul_right d (units_mono hab)
    unfold Rounds at ha hb
    rw [Nat.add_mul, Nat.add_mul] at ha hb
    rcases Nat.lt_or_eq_of_le hab with hfar | rfl
    · have hstep : units (a + 1) * d < units b * d := by
        refine Nat.mul_lt_mul_of_pos_right (Nat.lt_of_lt_of_le ?_ (units_mono hfar)) hd
        rw [units_succ (a + 1)]
        exact Nat.lt_add_of_pos_right (step_pos _)
      split at ha <;> split at hb <;> omega
    · split at ha <;> split at hb <;> omega
  rcases Nat.lt_trichotomy a b with hab | rfl | hba
  · exact (hlt hab ha hb).elim
  · rfl
  · exact (hlt hba hb ha).elim

/-- A magnitude is its own nearest. -/
theorem nearestRank_units (rank : Nat) {d : Nat} (hd : 0 < d) :
    nearestRank (units rank * d) d = rank := by
  refine Rounds.unique hd (rounds_nearestRank _ hd) ?_
  rcases Nat.eq_zero_or_pos rank with rfl | hpos
  · simp [Rounds, units_eq]
  · exact rounds_self hpos.ne' hd

/-- Whole numbers of up to 53 binary digits, in front of zeros, are magnitudes. -/
theorem exists_units {m : Nat} (hm : m ≤ 2 ^ 53) (s : Nat) : ∃ rank, units rank = m * 2 ^ s := by
  induction s generalizing m with
  | zero => exact ⟨0 * 2 ^ 52 + m, units_scaled hm (.inl rfl)⟩
  | succ s ih =>
    rcases Nat.lt_or_ge m (2 ^ 52) with hlt | hge
    · obtain ⟨rank, hrank⟩ := ih (m := 2 * m) (by omega)
      exact ⟨rank, by rw [hrank, Nat.pow_succ]; ring⟩
    · exact ⟨(s + 1) * 2 ^ 52 + m, units_scaled hm (.inr hge)⟩

end Relength.Binary64
