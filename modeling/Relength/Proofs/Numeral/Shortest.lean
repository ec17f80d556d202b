import Relength.Proofs.Magnitude

/-!
# Shortest decimals

`shortest` tries the grids of multiples of `10 ^ e` from coarse to fine. A point that rounds to a
magnitude stands on all finer grids as well, and a grid with such a point has one next to the
magnitude (`isSome_gridPoint?_iff`). So the decimal that is found has no zero at its end that a
coarser grid could have left out, and one is found at 17 places, or next to the least magnitude.

* `Binary64.shortest_spec`: the grid that `shortest` finds is the first;
* `Binary64.shortest_digits_ne_zero`, `Binary64.shortest_digits_mod_ten`: the digits of the decimal.
-/

namespace Relength.Binary64

/-! ## Neighbours of a magnitude -/

/-- The units from a rank to the next. -/
def step (rank : Nat) : Nat := 2 ^ (rank / 2 ^ 52 - 1)

theorem step_pos (rank : Nat) : 0 < step rank := Nat.two_pow_pos _

theorem step_mono {a b : Nat} (h : a ≤ b) : step a ≤ step b :=
  Nat.pow_le_pow_right (by omega) (Nat.sub_le_sub_right (Nat.div_le_div_right h) 1)

theorem units_succ (rank : Nat) : units (rank + 1) = units rank + step rank := by
  rw [units_eq, units_eq, step]
  have hmod := Nat.mod_lt rank (y := 2 ^ 52) (by omega)
  by_cases hlast : rank % 2 ^ 52 = 2 ^ 52 - 1
  · have hdiv : (rank + 1) / 2 ^ 52 = rank / 2 ^ 52 + 1 := by omega
    have hzero : (rank + 1) % 2 ^ 52 = 0 := by omega
    rw [hdiv, hzero, hlast, if_neg (by omega), Nat.add_sub_cancel]
    split
    · next hleast => rw [hleast]; rfl
    · next hne =>
      have hpow : 2 ^ (rank / 2 ^ 52) = 2 * 2 ^ (rank / 2 ^ 52 - 1) := by
        rw [← Nat.pow_succ', Nat.succ_eq_add_one, Nat.sub_add_cancel (by omega)]
      rw [hpow]
      ring
  · have hdiv : (rank + 1) / 2 ^ 52 = rank / 2 ^ 52 := by omega
    have hrest : (rank + 1) % 2 ^ 52 = rank % 2 ^ 52 + 1 := by omega
    rw [hdiv, hrest]
    split
    · next hzero => rw [hzero]; rfl
    · ring

/-- A magnitude has at most 53 binary digits in front of the step to it. -/
theorem units_succ_le (rank : Nat) : units (rank + 1) ≤ 2 ^ 53 * step rank := by
  have hmod := Nat.mod_lt rank (y := 2 ^ 52) (by omega)
  rw [units_succ, units_eq]
  split
  · have hpos := step_pos rank
    omega
  · calc (2 ^ 52 + rank % 2 ^ 52) * 2 ^ (rank / 2 ^ 52 - 1) + step rank
        = (2 ^ 52 + rank % 2 ^ 52 + 1) * step rank := by rw [step]; ring
      _ ≤ 2 ^ 53 * step rank := Nat.mul_le_mul_right _ (by omega)

/-! ## Numbers that round to a magnitude -/

/-- The quotient of units rounds to the magnitude of this rank. -/
def Rounds (rank n d : Nat) : Prop :=
  if rank % 2 = 0 then
    (units (rank - 1) + units rank) * d ≤ 2 * n ∧ 2 * n ≤ (units rank + units (rank + 1)) * d
  else (units (rank - 1) + units rank) * d < 2 * n ∧ 2 * n < (units rank + units (rank + 1)) * d

theorem readsBack_iff {rank p : Nat} {e : Int} :
    readsBack rank p e = true ↔ Rounds rank (p * (gridUnits e).1) (gridUnits e).2 := by
  simp only [readsBack, Rounds, Nat.mul_assoc]
  split <;> simp only [Bool.and_eq_true, decide_eq_true_eq]

section Rounds

variable {rank n d : Nat}

theorem rounds_of_lt (hlow : (units (rank - 1) + units rank) * d < 2 * n)
    (hhigh : 2 * n < (units rank + units (rank + 1)) * d) : Rounds rank n d := by
  unfold Rounds
  split
  · exact ⟨hlow.le, hhigh.le⟩
  · exact ⟨hlow, hhigh⟩

theorem Rounds.congr {n' d' : Nat} (h : Rounds rank n d) (hd : 0 < d) (hd' : 0 < d')
    (heq : n * d' = n' * d) : Rounds rank n' d' := by
  have htwice : 2 * n * d' = 2 * n' * d := by rw [Nat.mul_assoc, heq, Nat.mul_assoc]
  have hle (b : Nat) : b * d ≤ 2 * n ↔ b * d' ≤ 2 * n' := by
    rw [← Nat.mul_le_mul_right_iff hd', htwice, Nat.mul_right_comm, Nat.mul_le_mul_right_iff hd]
  have hge (b : Nat) : 2 * n ≤ b * d ↔ 2 * n' ≤ b * d' := by
    rw [← Nat.mul_le_mul_right_iff hd', htwice, Nat.mul_right_comm b, Nat.mul_le_mul_right_iff hd]
  unfold Rounds at h ⊢
  split at h
  · next heven =>
    rw [if_pos heven]
    exact ⟨(hle _).mp h.1, (hge _).mp h.2⟩
  · next hodd =>
    rw [if_neg hodd]
    simp only [← Nat.not_le] at h ⊢
    exact ⟨fun hlow => h.1 ((hge _).mpr hlow), fun hhigh => h.2 ((hle _).mpr hhigh)⟩

/-- Between two numbers that round to a magnitude all do. -/
theorem Rounds.between {a b : Nat} (ha : Rounds rank a d) (hb : Rounds rank b d) (han : a ≤ n)
    (hnb : n ≤ b) : Rounds rank n d := by
  unfold Rounds at ha hb ⊢
  split
  · next heven =>
    rw [if_pos heven] at ha hb
    omega
  · next hodd =>
    rw [if_neg hodd] at ha hb
    omega

theorem rounds_self (hrank : rank ≠ 0) (hd : 0 < d) : Rounds rank (units rank * d) d := by
  obtain ⟨r, rfl⟩ := Nat.exists_eq_succ_of_ne_zero hrank
  have hstep := Nat.mul_pos (step_pos r) hd
  have hstep' := Nat.mul_pos (step_pos (r + 1)) hd
  refine rounds_of_lt ?_ ?_
  · rw [Nat.succ_sub_one, Nat.succ_eq_add_one, units_succ]
    linarith
  · rw [Nat.succ_eq_add_one, units_succ (r + 1)]
    linarith

/-- What rounds to a magnitude other than zero is not zero. -/
theorem Rounds.ne_zero (hrank : rank ≠ 0) (hd : 0 < d) (h : Rounds rank n d) : n ≠ 0 := by
  rintro rfl
  have hpos : 0 < (units (rank - 1) + units rank) * d :=
    Nat.mul_pos (Nat.add_pos_right _ (units_pos hrank)) hd
  unfold Rounds at h
  split at h <;> omega

end Rounds

/-! ## Grids -/

theorem gridUnits_ofNat (n : Nat) : gridUnits (.ofNat n) = (10 ^ n * one, 1) :=
  if_pos (Int.natCast_nonneg n)

theorem gridUnits_negSucc (n : Nat) : gridUnits (.negSucc n) = (one, 10 ^ (n + 1)) :=
  if_neg (by omega)

theorem gridUnits_pos (e : Int) : 0 < (gridUnits e).1 ∧ 0 < (gridUnits e).2 := by
  have hpow (n : Nat) : 0 < 10 ^ n := Nat.pow_pos (by omega)
  cases e with
  | ofNat n =>
    simp only [gridUnits_ofNat]
    exact ⟨Nat.mul_pos (hpow n) one_pos, Nat.one_pos⟩
  | negSucc n =>
    simp only [gridUnits_negSucc]
    exact ⟨one_pos, hpow (n + 1)⟩

/-- Ten steps on a grid are one on the next coarser one. -/
theorem gridUnits_succ (e : Int) :
    (gridUnits (e + 1)).1 * (gridUnits e).2 = 10 * (gridUnits e).1 * (gridUnits (e + 1)).2 := by
  match e with
  | .ofNat n =>
    have hnext : Int.ofNat n + 1 = .ofNat (n + 1) := rfl
    rw [hnext, gridUnits_ofNat, gridUnits_ofNat, Nat.pow_succ]
    ring
  | .negSucc 0 =>
    have hnext : Int.negSucc 0 + 1 = .ofNat 0 := rfl
    rw [hnext, gridUnits_ofNat, gridUnits_negSucc]
    ring
  | .negSucc (n + 1) =>
    have hnext : Int.negSucc (n + 1) + 1 = .negSucc n := rfl
    rw [hnext, gridUnits_negSucc, gridUnits_negSucc, Nat.pow_succ]
    ring

/-- A point that ends in a zero stands on the next coarser grid as well. -/
theorem readsBack_succ {rank p : Nat} {e : Int} (h : readsBack rank (10 * p) e = true) :
    readsBack rank p (e + 1) = true := by
  rw [readsBack_iff] at h ⊢
  refine h.congr (gridUnits_pos e).2 (gridUnits_pos (e + 1)).2 ?_
  calc 10 * p * (gridUnits e).1 * (gridUnits (e + 1)).2
      = p * (10 * (gridUnits e).1 * (gridUnits (e + 1)).2) := by ring
    _ = p * (gridUnits (e + 1)).1 * (gridUnits e).2 := by rw [← gridUnits_succ, Nat.mul_assoc]

section GridPoint

variable {rank p : Nat} {e : Int}

theorem readsBack_of_gridPoint? (h : gridPoint? rank e = some p) : readsBack rank p e = true := by
  unfold gridPoint? at h
  dsimp only at h
  split at h
  · next hbelow habove =>
    obtain rfl := Option.some.inj h
    split
    · exact hbelow
    · exact habove
  · next hbelow habove =>
    obtain rfl := Option.some.inj h
    exact hbelow
  · next hbelow habove =>
    obtain rfl := Option.some.inj h
    exact habove
  · cases h

/-- If a point of the grid rounds to the magnitude, one of the two next to the magnitude does. -/
theorem isSome_gridPoint?_iff (hrank : rank ≠ 0) :
    (gridPoint? rank e).isSome = true ↔ ∃ p, readsBack rank p e = true := by
  constructor
  · intro h
    obtain ⟨p, hp⟩ := Option.isSome_iff_exists.mp h
    exact ⟨p, readsBack_of_gridPoint? hp⟩
  · rintro ⟨p, hp⟩
    obtain ⟨hgrid, hunit⟩ := gridUnits_pos e
    have hself := rounds_self hrank hunit
    have hdiv := Nat.div_add_mod (units rank * (gridUnits e).2) (gridUnits e).1
    have hmod := Nat.mod_lt (units rank * (gridUnits e).2) hgrid
    have hnear : readsBack rank (units rank * (gridUnits e).2 / (gridUnits e).1) e = true ∨
        readsBack rank (units rank * (gridUnits e).2 / (gridUnits e).1 + 1) e = true := by
      simp only [readsBack_iff] at hp ⊢
      generalize units rank * (gridUnits e).2 / (gridUnits e).1 = below at hdiv ⊢
      rcases Nat.lt_or_ge below p with hlt | hle
      · refine .inr (hself.between hp ?_ (Nat.mul_le_mul_right _ hlt))
        rw [Nat.add_mul, Nat.mul_comm below]
        omega
      · refine .inl (hp.between hself (Nat.mul_le_mul_right _ hle) ?_)
        rw [Nat.mul_comm below]
        omega
    unfold gridPoint?
    rcases hnear with h | h
    · dsimp only
      rw [h]
      split <;> simp_all
    · dsimp only
      rw [h]
      split <;> simp_all

/-- On a grid that is finer than the step to a magnitude a point rounds to it. -/
theorem exists_readsBack (h : (gridUnits e).1 < step rank * (gridUnits e).2) :
    ∃ p, readsBack (rank + 1) p e = true := by
  simp only [readsBack_iff]
  have hgrid := (gridUnits_pos e).1
  generalize (gridUnits e).1 = grid at h hgrid ⊢
  generalize (gridUnits e).2 = d at h ⊢
  have hupper : step rank * d ≤ step (rank + 1) * d := Nat.mul_le_mul_right _ (step_mono (by omega))
  have hunits : units (rank + 1) * d = units rank * d + step rank * d := by
    rw [units_succ, Nat.add_mul]
  have hunits' : units (rank + 1 + 1) * d = units (rank + 1) * d + step (rank + 1) * d := by
    rw [units_succ (rank + 1), Nat.add_mul]
  have hdiv := Nat.div_add_mod (units (rank + 1) * d) grid
  have hmod := Nat.mod_lt (units (rank + 1) * d) hgrid
  generalize units (rank + 1) * d / grid = below at hdiv
  generalize units (rank + 1) * d % grid = rest at hdiv hmod
  rw [Nat.mul_comm] at hdiv
  -- The nearer of the two points next to the magnitude is less than half a step away.
  rcases Nat.lt_or_ge grid (2 * rest) with hfar | hnear
  · refine ⟨below + 1, rounds_of_lt ?_ ?_⟩
    all_goals
      simp only [Nat.add_sub_cancel, Nat.add_mul]
      omega
  · refine ⟨below, rounds_of_lt ?_ ?_⟩
    all_goals
      simp only [Nat.add_sub_cancel, Nat.add_mul]
      omega

end GridPoint

/-! ## The first grid -/

theorem one_lt_pow : one < 10 ^ (323 + 1) := by decide +kernel

/-- The digits in front of the point of a magnitude. -/
def wholeDigits (rank : Nat) : Nat := (Nat.toDigits 10 (units rank / one)).length

theorem wholeDigits_pos (rank : Nat) : 0 < wholeDigits rank := Nat.length_toDigits_pos

theorem pow_wholeDigits_le {rank : Nat} (h : one ≤ units rank) :
    10 ^ (wholeDigits rank - 1) * one ≤ units rank := by
  have hone := one_pos
  refine (Nat.le_div_iff_mul_le hone).mp ?_
  rcases Nat.lt_or_ge 1 (wholeDigits rank) with hlong | hshort
  · have hlength := Nat.length_toDigits_le_iff (b := 10) (n := units rank / one)
      (k := wholeDigits rank - 1) (by omega) (by omega)
    change wholeDigits rank ≤ _ ↔ _ at hlength
    omega
  · have hzero : wholeDigits rank - 1 = 0 := by omega
    rw [hzero, Nat.pow_zero]
    exact Nat.div_pos h hone

theorem wholeDigits_of_lt {rank : Nat} (h : units rank < one) : wholeDigits rank = 1 := by
  rw [wholeDigits, Nat.div_eq_of_lt h]
  rfl

/-- The exponent of the grid that is tried after so many coarser ones. -/
def tried (rank i : Nat) : Int := (wholeDigits rank : Int) - (i : Int)

/-- Seventeen places are enough for a magnitude from 1 on. -/
theorem gridUnits_tried_lt {rank : Nat} (h : one ≤ units (rank + 1)) :
    (gridUnits (tried (rank + 1) 17)).1 < step rank * (gridUnits (tried (rank + 1) 17)).2 := by
  have hwhole := pow_wholeDigits_le h
  have hstep := units_succ_le rank
  have hpos := wholeDigits_pos (rank + 1)
  have hone := one_pos
  unfold tried
  generalize wholeDigits (rank + 1) = n at hwhole hpos
  generalize units (rank + 1) = u at hwhole hstep
  generalize step rank = w at hstep
  rcases Nat.lt_or_ge n 17 with hlt | hge
  · obtain ⟨k, rfl⟩ : ∃ k, n = 16 - k := ⟨16 - n, by omega⟩
    have he : ((16 - k : Nat) : Int) - (17 : Nat) = .negSucc k := by omega
    simp only [he, gridUnits_negSucc]
    have hpow : 10 ^ (16 - k - 1) * one * 10 ^ (k + 1) = 10 ^ 16 * one := by
      rw [Nat.mul_right_comm, ← Nat.pow_add]
      congr 2
      omega
    have hscaled : 10 ^ 16 * one ≤ 2 ^ 53 * (w * 10 ^ (k + 1)) := by
      calc 10 ^ 16 * one = 10 ^ (16 - k - 1) * one * 10 ^ (k + 1) := hpow.symm
        _ ≤ 2 ^ 53 * w * 10 ^ (k + 1) := Nat.mul_le_mul_right _ (hwhole.trans hstep)
        _ = 2 ^ 53 * (w * 10 ^ (k + 1)) := Nat.mul_assoc ..
    omega
  · obtain ⟨k, rfl⟩ : ∃ k, n = k + 17 := ⟨n - 17, by omega⟩
    have he : ((k + 17 : Nat) : Int) - (17 : Nat) = .ofNat k := by
      rw [Int.ofNat_eq_natCast]
      omega
    simp only [he, gridUnits_ofNat]
    have hpow : 10 ^ (k + 17 - 1) * one = 10 ^ 16 * (10 ^ k * one) := by
      rw [Nat.add_sub_assoc (by omega), Nat.pow_add]
      ring
    have hpos : 0 < 10 ^ k * one := Nat.mul_pos (Nat.pow_pos (by omega)) hone
    omega

theorem exists_readsBack_tried (rank : Nat) :
    ∃ i < 633, ∃ p, readsBack (rank + 1) p (tried (rank + 1) i) = true := by
  rcases Nat.lt_or_ge (units (rank + 1)) one with hlt | hge
  · refine ⟨325, by omega, exists_readsBack ?_⟩
    have he : tried (rank + 1) 325 = .negSucc 323 := by
      rw [tried, wholeDigits_of_lt hlt]
      rfl
    simp only [he, gridUnits_negSucc]
    exact one_lt_pow.trans_le (Nat.le_mul_of_pos_left _ (step_pos rank))
  · exact ⟨17, by omega, exists_readsBack (gridUnits_tried_lt hge)⟩

theorem range_split {n i : Nat} {front back : List Nat} (h : List.range n = front ++ i :: back) :
    front = List.range i := by
  have hlength := congrArg List.length h
  have htake := congrArg (List.take front.length) h
  have hget := congrArg (fun l => l[front.length]?) h
  simp only [List.length_range, List.length_append, List.length_cons] at hlength
  rw [List.take_range, Nat.min_eq_left (by omega), List.take_left] at htake
  rw [List.getElem?_append_right (Nat.le_refl _), Nat.sub_self,
    List.getElem?_range (by omega)] at hget
  obtain rfl : front.length = i := Option.some.inj hget
  exact htake.symm

/-- The decimal stands on the first grid that has a point for the magnitude. -/
theorem shortest_spec {rank : Nat} (hrank : rank ≠ 0) :
    ∃ i, (shortest rank).exponent = tried rank i ∧
      readsBack rank (shortest rank).digits (tried rank i) = true ∧
        ∀ j < i, ∀ p, readsBack rank p (tried rank j) = false := by
  have hnone {j : Nat} (h : gridPoint? rank (tried rank j) = none) (p : Nat) :
      readsBack rank p (tried rank j) = false := by
    rw [Bool.eq_false_iff]
    intro hp
    have hsome := (isSome_gridPoint?_iff hrank).mpr ⟨p, hp⟩
    rw [h] at hsome
    cases hsome
  let point (i : Nat) : Option Decimal :=
    (gridPoint? rank (tried rank i)).map (Decimal.mk · (tried rank i))
  have hshortest : shortest rank = ((List.range 633).findSome? point).getD ⟨0, 0⟩ := rfl
  cases hfound : (List.range 633).findSome? point with
  | none =>
    exfalso
    obtain ⟨r, rfl⟩ := Nat.exists_eq_succ_of_ne_zero hrank
    obtain ⟨i, hi, p, hp⟩ := exists_readsBack_tried r
    have hpoint := List.findSome?_eq_none_iff.mp hfound i (List.mem_range.mpr hi)
    rw [hnone (Option.map_eq_none_iff.mp hpoint)] at hp
    cases hp
  | some decimal =>
    obtain ⟨front, i, back, hsplit, hpoint, hfront⟩ := List.findSome?_eq_some_iff.mp hfound
    obtain ⟨p, hp, rfl⟩ := Option.map_eq_some_iff.mp hpoint
    rw [hshortest, hfound]
    refine ⟨i, rfl, readsBack_of_gridPoint? hp, fun j hj => hnone ?_⟩
    rw [range_split hsplit] at hfront
    exact Option.map_eq_none_iff.mp (hfront j (List.mem_range.mpr hj))

variable {rank : Nat}

theorem shortest_digits_ne_zero (hrank : rank ≠ 0) : (shortest rank).digits ≠ 0 := by
  obtain ⟨i, -, hback, -⟩ := shortest_spec hrank
  have hne := (readsBack_iff.mp hback).ne_zero hrank (gridUnits_pos _).2
  exact fun hzero => hne (by rw [hzero, Nat.zero_mul])

/-- Behind the point no zero is last, as a coarser grid could have left it out. -/
theorem shortest_digits_mod_ten (hrank : rank ≠ 0) (h : (shortest rank).exponent < 0) :
    (shortest rank).digits % 10 ≠ 0 := by
  obtain ⟨i, hexponent, hback, hfirst⟩ := shortest_spec hrank
  intro hzero
  obtain ⟨p, hp⟩ := Nat.dvd_of_mod_eq_zero hzero
  have hpos := wholeDigits_pos rank
  rw [hexponent, tried] at h
  have hi : tried rank i + 1 = tried rank (i - 1) := by
    simp only [tried]
    omega
  rw [hp] at hback
  have hcoarse := readsBack_succ hback
  rw [hi, hfirst (i - 1) (by omega)] at hcoarse
  cases hcoarse

end Relength.Binary64
