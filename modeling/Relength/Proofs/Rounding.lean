import Relength.Proofs.Formatting
import Relength.Proofs.Numeral.Nearest

/-!
# Rounding in range

Rounding to decimal places scales a magnitude up by a power of ten, cuts off and rounds what is
behind the point, and scales it down again. The result is finite unless the scaled magnitude is not
(`Binary64.isFinite_roundTo_iff`).

How many digits are written behind the point depends on whether a multiple of the last place rounds
to the result. One does where the power of ten is exact and the tenth that is multiplied by ten
again is as well, since the result is then the nearest number to such a multiple; and one does where
numbers stand further apart than the last places.

* `Binary64.places_toNumberText`: the places that a number is written with;
* `Binary64.roundTo_inRange`: the range and the places of a rounded number.
-/

namespace Relength

/-- The digits behind the point of a number that is written. -/
def Text.places (s : Text) : Nat := (s.dropWhile (· != '.')).length - 1

theorem Text.places_of_not_mem {s : Text} (h : '.' ∉ s) : places s = 0 := by
  have hdrop : s.dropWhile (· != '.') = [] := by
    rw [List.dropWhile_eq_nil_iff]
    intro c hc
    rw [bne_iff_ne]
    rintro rfl
    exact h hc
  rw [places, hdrop]
  rfl

theorem Text.places_point {s : Text} (h : '.' ∉ s) (fraction : Text) :
    places (s ++ '.' :: fraction) = fraction.length := by
  have hdrop : (s ++ '.' :: fraction).dropWhile (· != '.') = '.' :: fraction := by
    rw [List.dropWhile_append_of_pos]
    · rfl
    · intro c hc
      rw [bne_iff_ne]
      rintro rfl
      exact h hc
  rw [places, hdrop, List.length_cons, Nat.add_sub_cancel]

namespace Binary64

/-! ## Places -/

theorem point_not_mem {s : Text} (h : ∀ c ∈ s, c.isDigit = true) : '.' ∉ s := by
  intro hmem
  cases h '.' hmem

theorem places_toText {sign : Text} (hsign : '.' ∉ sign) (d : Decimal) :
    Text.places (sign ++ d.toText) ≤ (-d.exponent).toNat := by
  have hdigits := point_not_mem (digit_of_mem_toDigits (n := d.digits))
  unfold Decimal.toText
  generalize Nat.toDigits 10 d.digits = digits at hdigits
  dsimp only
  split
  · have hnone : '.' ∉ sign ++ (digits ++ List.replicate d.exponent.toNat '0') := by
      simp [hsign, hdigits, List.mem_replicate]
    rw [Text.places_of_not_mem hnone]
    exact Nat.zero_le _
  · split
    · have hnone : '.' ∉ sign ++ digits.take (digits.length - (-d.exponent).toNat) := by
        rw [List.mem_append, not_or]
        exact ⟨hsign, fun h => hdigits (List.mem_of_mem_take h)⟩
      rw [← List.append_assoc, Text.places_point hnone, List.length_drop]
      omega
    · have hnone : '.' ∉ sign ++ ['0'] := by simp [hsign]
      have hsplit (s : Text) : sign ++ '0' :: '.' :: s = sign ++ ['0'] ++ '.' :: s := by simp
      rw [hsplit, Text.places_point hnone, List.length_append, List.length_replicate]
      omega

theorem gridUnits_neg (places : Nat) : gridUnits (-(places : Int)) = (one, 10 ^ places) := by
  cases places with
  | zero =>
    have hzero : gridUnits 0 = (10 ^ 0 * one, 1) := gridUnits_ofNat 0
    simpa using hzero
  | succ n => exact gridUnits_negSucc n

/-- No more places are written than are needed for a multiple of the last one. -/
theorem exponent_shortest {rank p places : Nat} (hrank : rank ≠ 0)
    (h : readsBack rank p (-(places : Int)) = true) :
    -(places : Int) ≤ (shortest rank).exponent := by
  obtain ⟨i, hexponent, -, hfirst⟩ := shortest_spec hrank
  rw [hexponent]
  by_contra hfiner
  simp only [tried] at hfiner
  have htried : tried rank (wholeDigits rank + places) = -(places : Int) := by
    simp only [tried]
    omega
  have hcoarser := hfirst (wholeDigits rank + places) (by omega) p
  rw [htried, h] at hcoarser
  cases hcoarser

/-- A number that a multiple of the last place rounds to is written with so many places. -/
theorem places_toNumberText {negative : Bool} {rank : Fin limit} {places : Nat}
    (h : rank.val = 0 ∨ ∃ p, readsBack rank p (-(places : Int)) = true) :
    Text.places (toNumberText (.finite negative rank)) ≤ places := by
  by_cases hrank : rank.val = 0
  · have hzero : isZero (.finite negative rank) = true := beq_iff_eq.mpr hrank
    rw [toNumberText, hzero]
    exact Nat.zero_le _
  · obtain ⟨p, hp⟩ := h.resolve_left hrank
    have hzero : isZero (.finite negative rank) = false := by simpa [isZero] using hrank
    have htext : toNumberText (.finite negative rank) =
        (if negative then ['-'] else []) ++ (shortest rank).toText := by
      rw [toNumberText, hzero, toText, magnitudeText, if_neg hrank]
      rfl
    have hsign : '.' ∉ (if negative then ['-'] else [] : Text) := by cases negative <;> simp
    have hexponent := exponent_shortest hrank hp
    rw [htext]
    exact (places_toText hsign _).trans (by omega)

/-! ## Finite results -/

/-- The greatest finite number. -/
def largest : Binary64 := .finite false ⟨limit - 1, by decide⟩

theorem atMost_largest (a : Fin limit) : AtMost (.finite false a) largest :=
  .finite (Nat.le_sub_one_of_lt a.isLt)

theorem isFinite_withSign (negative : Bool) (x : Binary64) :
    (x.withSign negative).isFinite = x.isFinite := by
  cases x <;> rfl

theorem ofRatio_cases (n d : Nat) :
    (∃ a, ofRatio false n d = .finite false a ∧ a.val = nearestRank n d) ∨
      ofRatio false n d = .infinite false := by
  unfold ofRatio
  split
  · exact .inl ⟨_, rfl, rfl⟩
  · exact .inr rfl

/-- Division by 1 or more does not overflow. -/
theorem exists_div {r : Fin limit} (hr : r.val ≠ 0) (hone : one ≤ units r) (a : Fin limit) :
    ∃ b, Binary64.finite false a / .finite false r = .finite false b := by
  have hquotient : Binary64.finite false a / .finite false r =
      ofRatio false (units a * one) (units r) := if_neg hr
  have hle : nearestRank (units a * one) (units r) ≤ nearestRank (units a * one) one :=
    nearestRank_mono (units_pos hr) one_pos (Nat.mul_le_mul_left _ hone)
  rw [nearestRank_units a one_pos] at hle
  exact ⟨_, by rw [hquotient, ofRatio, dif_pos (Nat.lt_of_le_of_lt hle a.isLt)]⟩

theorem AtMost.exists_finite {x y : Binary64} (h : AtMost x y) (hy : y.isFinite = true) :
    ∃ a, x = .finite false a := by
  cases h with
  | finite => exact ⟨_, rfl⟩
  | below => cases hy
  | infinite => cases hy

theorem isFinite_tenfold_largest :
    ((largest.truncate / ofNat 10).round * ofNat 10).isFinite = true := by
  decide +kernel

/-- The tenth of any magnitude, rounded, can be multiplied by ten again. -/
theorem exists_tenfold (a : Fin limit) :
    ∃ b, ((Binary64.finite false a).truncate / ofNat 10).round * ofNat 10 = .finite false b := by
  have hten := ten_ne_zero
  have hmost : AtMost (((Binary64.finite false a).truncate / ofNat 10).round * ofNat 10)
      ((largest.truncate / ofNat 10).round * ofNat 10) := by
    rw [ofNat_ten]
    exact ((atMost_largest a).truncate.div_right hten).round.mul_right hten
  exact hmost.exists_finite isFinite_tenfold_largest

theorem infinite_mul_ten : Binary64.infinite false * ofNat 10 = .infinite false := by
  rw [ofNat_ten]
  have hten := ten_ne_zero
  have hproduct (r : Fin limit) (hr : r.val ≠ 0) :
      Binary64.infinite false * .finite false r = .infinite false := if_neg hr
  exact hproduct _ hten

/-- A rounded number is finite unless its scaled magnitude overflows. -/
theorem isFinite_roundTo_iff {x : Binary64} (hx : x.isFinite = true) (precision : Nat) :
    (x.roundTo precision).isFinite = true ↔
      ((scale precision).isFinite = true → (x.abs * scale precision).isFinite = true) := by
  by_cases hscale : (scale precision).isFinite = true
  · obtain ⟨r, hr, hone, heq⟩ := exists_scale hscale
    rw [roundTo_of_scale heq, isFinite_withSign, heq]
    cases x with
    | nan => cases hx
    | infinite negative => cases hx
    | finite negative a =>
      have hproduct : (Binary64.finite negative a).abs * .finite false r =
          ofRatio false (units a * units r) one := finite_mul_finite a r
      rw [hproduct]
      rcases ofRatio_cases (units a * units r) one with ⟨b, hb, -⟩ | hinfinite
      · obtain ⟨c, hc⟩ := exists_tenfold b
        obtain ⟨e, he⟩ := exists_div hr hone c
        rw [hb, hc, he]
        exact ⟨fun _ _ => rfl, fun _ => rfl⟩
      · have htenth : ((Binary64.infinite false).truncate / ofNat 10).round = .infinite false := by
          rw [ofNat_ten]
          rfl
        rw [hinfinite, htenth, infinite_mul_ten]
        exact ⟨fun h _ => h, fun h => h rfl⟩
  · rw [roundTo_of_infinite_scale hscale]
    exact ⟨fun _ h => absurd h hscale, fun _ => hx⟩

/-! ## Exact scales -/

/-- The magnitude of a finite number without a sign, in units. -/
def toUnits? : Binary64 → Option Nat
  | .finite false rank => some (units rank)
  | _ => none

theorem exists_finite_of_toUnits? {x : Binary64} {n : Nat} (h : toUnits? x = some n) :
    ∃ a, x = .finite false a ∧ units a = n := by
  unfold toUnits? at h
  split at h
  · exact ⟨_, rfl, Option.some.inj h⟩
  · cases h

/-- The rank of `2 ^ 54`. -/
def rank54 : Nat := 1077 * Nat.pow 2 52

/-- The greatest number below `2 ^ 54`. -/
def below54 : Binary64 := .finite false ⟨rank54 - 1, by decide⟩

/-- Ten and the scales up to 21 places are the powers of ten, and the tenth of what is below
`2 ^ 54` is below a tenth of `2 ^ 54`. -/
theorem toUnits?_powers :
    (∀ precision < 22, toUnits? (scale precision) = some (10 ^ (precision + 1) * one)) ∧
      toUnits? (ofNat 10) = some (10 * one) ∧
      ofNat (2 ^ 54) = .finite false ⟨rank54, by decide⟩ ∧
      toUnits? (below54.truncate / ofNat 10).round = some (1801439850948198 * one) ∧
      one = 2 ^ one.log2 := by
  decide +kernel

/-- Whole numbers of up to 53 binary digits are magnitudes, and so are their doubles. -/
theorem exists_units_one {m : Nat} (hm : m ≤ 2 ^ 53) (s : Nat) :
    ∃ rank, units rank = m * 2 ^ s * one := by
  obtain ⟨rank, hunits⟩ := exists_units hm (s + one.log2)
  exact ⟨rank, by rw [hunits, Nat.pow_add, ← toUnits?_powers.2.2.2.2, Nat.mul_assoc]⟩

theorem rank_ofRatio {n d : Nat} {a : Fin limit} (h : ofRatio false n d = .finite false a) :
    a.val = nearestRank n d := by
  rcases ofRatio_cases n d with ⟨b, hb, hval⟩ | hinfinite
  · rw [hb] at h
    cases h
    exact hval
  · rw [hinfinite] at h
    cases h

/-- Rounding to a whole number is exact where 53 binary digits hold the result. -/
theorem units_round {a b : Fin limit} (h : (Binary64.finite false a).round = .finite false b)
    (hb : units b < 2 ^ 53 * one) : ∃ k < 2 ^ 53, units b = k * one := by
  have hexact {m : Nat} (hm : m ≤ 2 ^ 53) : units (nearestRank (m * one) 1) = m * one := by
    obtain ⟨rank, hunits⟩ := exists_units_one hm 0
    have hself := nearestRank_units rank Nat.one_pos
    rw [Nat.mul_one, hunits, Nat.pow_zero, Nat.mul_one] at hself
    rw [hself, hunits, Nat.pow_zero, Nat.mul_one]
  have hrank : b.val = nearestRank ((2 * units a + one) / (2 * one) * one) 1 := rank_ofRatio h
  generalize (2 * units a + one) / (2 * one) = k at hrank
  rcases Nat.lt_or_ge k (2 ^ 53) with hlt | hge
  · exact ⟨k, hlt, by rw [hrank, hexact hlt.le]⟩
  · have hmost := units_mono (nearestRank_mono Nat.one_pos Nat.one_pos
      (Nat.mul_le_mul_right 1 (Nat.mul_le_mul_right one hge)))
    rw [hexact (Nat.le_refl _), ← hrank] at hmost
    omega

theorem exists_finite_of_round {x : Binary64} {b : Fin limit} (hx : AtMost x x)
    (h : x.round = .finite false b) : ∃ a, x = .finite false a := by
  cases hx with
  | finite => exact ⟨_, rfl⟩
  | infinite => cases h

/-- Below `2 ^ 54` the tenth of a whole number, rounded, can be multiplied by ten exactly. -/
theorem units_tenfold {b c : Fin limit}
    (hb : (Binary64.finite false b).less (ofNat (2 ^ 54)) = true)
    (hc : ((Binary64.finite false b).truncate / ofNat 10).round * ofNat 10 = .finite false c) :
    ∃ k, units c = 10 * k * one := by
  have hbelow : AtMost (.finite false b) below54 := by
    rw [toUnits?_powers.2.2.1] at hb
    have hlt : b.val < rank54 := of_decide_eq_true hb
    exact .finite (Nat.le_sub_one_of_lt hlt)
  have hten := ten_ne_zero
  have htenth : AtMost ((Binary64.finite false b).truncate / ofNat 10)
      (below54.truncate / ofNat 10) := by
    rw [ofNat_ten]
    exact hbelow.truncate.div_right hten
  obtain ⟨m, hm, hmost⟩ := exists_finite_of_toUnits? toUnits?_powers.2.2.2.1
  obtain ⟨ten, hten', hunits⟩ := exists_finite_of_toUnits? toUnits?_powers.2.1
  have hround := htenth.round
  rw [hm] at hround
  obtain ⟨q, hq⟩ : ∃ q, (Binary64.finite false b).truncate / ofNat 10 = .finite false q := by
    obtain ⟨t, ht⟩ := hround.exists_finite rfl
    exact exists_finite_of_round htenth.refl_left ht
  rw [hq] at hround
  obtain ⟨t, ht⟩ := hround.exists_finite rfl
  rw [hq, ht, hten', finite_mul_finite] at hc
  have hone := one_pos
  have hle : units t ≤ 1801439850948198 * one := by
    rw [ht] at hround
    cases hround with
    | finite h => exact hmost ▸ units_mono h
  obtain ⟨k, -, hk⟩ := units_round ht (by omega)
  have hfits : 5 * k ≤ 2 ^ 53 := by
    rw [hk] at hle
    have hmost := Nat.le_of_mul_le_mul_right hle hone
    omega
  obtain ⟨rank, hrank⟩ := exists_units_one hfits 1
  have hproduct : units t * units ten = units rank * one := by
    rw [hk, hunits, hrank]
    ring
  have hself := nearestRank_units rank hone
  rw [← hproduct, ← rank_ofRatio hc] at hself
  refine ⟨k, ?_⟩
  rw [hself, hrank]
  ring

/-- Where the scale and the tenfold are exact, the result is the nearest to a multiple of the last
place. -/
theorem readsBack_of_exact {precision k : Nat} {r c e : Fin limit} (hr : r.val ≠ 0)
    (hscale : units r = 10 ^ (precision + 1) * one) (hc : units c = 10 * k * one)
    (he : Binary64.finite false c / .finite false r = .finite false e) :
    readsBack e k (-(precision : Int)) = true := by
  have hquotient : Binary64.finite false c / .finite false r =
      ofRatio false (units c * one) (units r) := if_neg hr
  rw [hquotient] at he
  have hrounds := rounds_nearestRank (units c * one) (units_pos hr)
  rw [← rank_ofRatio he] at hrounds
  rw [readsBack_iff, gridUnits_neg]
  refine hrounds.congr (units_pos hr) (Nat.pow_pos (by omega)) ?_
  rw [hscale, hc, Nat.pow_succ]
  ring

/-! ## Coarse numbers -/

/-- How far a number is from the next towards zero, in units. -/
def spacing : Binary64 → Nat
  | .finite _ rank => step (rank - 1)
  | .infinite _ => 0
  | .nan => 0

/-- Where numbers stand further apart than the last places, a multiple of the last place rounds to
each of them. -/
theorem exists_readsBack_of_spacing {negative : Bool} {rank : Fin limit} {places : Nat}
    (hrank : rank.val ≠ 0) (h : one < spacing (.finite negative rank) * 10 ^ places) :
    ∃ p, readsBack rank p (-(places : Int)) = true := by
  have hsucc : rank.val = rank.val - 1 + 1 := by omega
  rw [hsucc]
  refine exists_readsBack ?_
  simp only [gridUnits_neg]
  exact h

/-! ## Rounding in range -/

/-- Where the scale is exact and what it makes of a number is below `2 ^ 54`, the number is written
with the places that were asked for. -/
theorem places_roundTo_of_exact {x : Binary64} (hx : x.isFinite = true) {precision : Nat}
    (hprecision : precision ≤ 21) (h : (x.abs * scale precision).less (ofNat (2 ^ 54)) = true) :
    Text.places (x.roundTo precision).toNumberText ≤ precision := by
  obtain ⟨r, hr, hunits⟩ :=
    exists_finite_of_toUnits? (toUnits?_powers.1 precision (Nat.lt_succ_of_le hprecision))
  have hfinite : (scale precision).isFinite = true := by
    rw [hr]
    rfl
  obtain ⟨r', hne, hone, hr'⟩ := exists_scale hfinite
  obtain rfl : r = r' := by
    rw [hr] at hr'
    cases hr'
    rfl
  rw [roundTo_of_scale hr]
  rw [hr] at h
  cases x with
  | nan => cases hx
  | infinite negative => cases hx
  | finite negative a =>
    have hproduct : (Binary64.finite negative a).abs * .finite false r =
        ofRatio false (units a * units r) one := finite_mul_finite a r
    rw [hproduct] at h ⊢
    rcases ofRatio_cases (units a * units r) one with ⟨b, hb, -⟩ | hinfinite
    · rw [hb] at h ⊢
      obtain ⟨c, hc⟩ := exists_tenfold b
      obtain ⟨k, hk⟩ := units_tenfold h hc
      obtain ⟨e, he⟩ := exists_div hne hone c
      rw [hc, he]
      exact places_toNumberText (.inr ⟨k, readsBack_of_exact hne hunits hk he⟩)
    · rw [hinfinite, toUnits?_powers.2.2.1] at h
      cases h

/-- The result is finite unless the scaled magnitude overflows. It has the places that were asked
for where the scale and the scaled whole number are exact, and where numbers stand further apart
than the last places. -/
theorem roundTo_inRange (x : Binary64) (precision : Nat) (hx : x.isFinite = true) :
    ((x.roundTo precision).isFinite = true ↔
      ((scale precision).isFinite = true → (x.abs * scale precision).isFinite = true)) ∧
    (precision ≤ 21 ∧ (x.abs * scale precision).less (ofNat (2 ^ 54)) = true ∨
        one < (x.roundTo precision).spacing * 10 ^ precision →
      Text.places (x.roundTo precision).toNumberText ≤ precision) := by
  refine ⟨isFinite_roundTo_iff hx precision, ?_⟩
  rintro (⟨hprecision, hless⟩ | hspacing)
  · exact places_roundTo_of_exact hx hprecision hless
  · cases hround : x.roundTo precision with
    | finite negative rank =>
      rw [hround] at hspacing
      refine places_toNumberText ?_
      by_cases hrank : rank.val = 0
      · exact .inl hrank
      · exact .inr (exists_readsBack_of_spacing hrank hspacing)
    | infinite negative =>
      rw [hround, spacing, Nat.zero_mul] at hspacing
      exact absurd hspacing (Nat.not_lt_zero _)
    | nan =>
      rw [hround, spacing, Nat.zero_mul] at hspacing
      exact absurd hspacing (Nat.not_lt_zero _)

/-- The number 1.005, which is below a half of the last of two places. -/
theorem roundTo_inRange_low :
    (roundTo (.finite false ⟨4607204936798154260, by decide⟩) 2).isFinite = true ∧
      (roundTo (.finite false ⟨4607204936798154260, by decide⟩) 2).toNumberText.places ≤ 2 := by
  have hscaled :
      (abs (.finite false ⟨4607204936798154260, by decide⟩) * scale 2).isFinite = true ∧
        (abs (.finite false ⟨4607204936798154260, by decide⟩) * scale 2).less (ofNat (2 ^ 54)) =
          true := by
    decide +kernel
  obtain ⟨hfinite, hplaces⟩ :=
    roundTo_inRange (.finite false ⟨4607204936798154260, by decide⟩) 2 rfl
  exact ⟨hfinite.mpr fun _ => hscaled.1, hplaces (.inl ⟨by decide, hscaled.2⟩)⟩

/-- A scaled magnitude overflows although the number and its scale are finite; and where the tenfold
is not exact, one more place can be written. -/
theorem roundTo_outOfRange :
    ofText? "1e308".toList = some (.finite false ⟨9214871658872686752, by decide⟩) ∧
      (scale 0).isFinite = true ∧
      (roundTo (.finite false ⟨9214871658872686752, by decide⟩) 0).isFinite = false ∧
    ofText? "279.3810866102291".toList = some (.finite false ⟨4643622540244549130, by decide⟩) ∧
      (roundTo (.finite false ⟨4643622540244549130, by decide⟩) 13).toNumberText =
        "279.38108661022915".toList := by
  decide +kernel

end Binary64

end Relength
