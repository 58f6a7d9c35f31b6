/-
# The fewest digits round to the double

A decimal number is the rational `Decimal.value`, and two decimal numbers of the
same value round to the same rank. The number with the fewest digits that
`Rank.shortest` finds rounds to the rank it is made for, and so does the number
that follows if no grid has one, which is the double itself; zeros at the end of
the digits do not count. Reading such a number gives back the rank: the powers of
ten that are answered without being formed lie outside the doubles.

A double that is a whole number gets a decimal number without fraction, since the
grid of its own digits holds it.

Key definitions: `Decimal.value`.
Key theorems: `Decimal.rank_eq_of_roundsTo`, `Rank.roundsTo_shortest`,
`Rank.exponent_shortest`.
-/
import AssignLang.Number.Shortest
import AssignLang.Proofs.Number.Rounding
import Mathlib.Tactic.FieldSimp
import Mathlib.Tactic.Positivity
import Mathlib.Algebra.Order.Field.Rat
import Mathlib.Algebra.Order.Field.Power

namespace AssignLang

open Rank

namespace Decimal

/-- The number as a rational. -/
def value (d : Decimal) : ℚ := d.digits * 10 ^ d.exponent

theorem fraction_pos (d : Decimal) : 0 < d.fraction.2 := Nat.pow_pos (by decide)

theorem fraction_value (d : Decimal) : (d.fraction.1 : ℚ) / d.fraction.2 = d.value := by
  have hpow : ((10 ^ d.exponent.toNat : ℕ) : ℚ) / ((10 ^ (-d.exponent).toNat : ℕ) : ℚ) =
      10 ^ d.exponent := by
    rcases Int.le_total 0 d.exponent with h | h
    · obtain ⟨n, hn⟩ := Int.eq_ofNat_of_zero_le h
      rw [hn]
      simp
    · obtain ⟨n, hn⟩ := Int.eq_ofNat_of_zero_le (Int.neg_nonneg_of_nonpos h)
      have hexponent : d.exponent = -(n : ℤ) := by omega
      rw [hexponent]
      simp
  rw [value, ← hpow]
  show ((d.digits * 10 ^ d.exponent.toNat : ℕ) : ℚ) / ((10 ^ (-d.exponent).toNat : ℕ) : ℚ) = _
  rw [Nat.cast_mul, mul_div_assoc]

/-- A fraction rounds as the decimal number of its value does. -/
theorem roundsTo_fraction {num den : ℕ} (hden : 0 < den) {d : Decimal}
    (h : (num : ℚ) / den = d.value) (k : ℕ) :
    roundsTo num den k = roundsTo d.fraction.1 d.fraction.2 k := by
  refine roundsTo_congr hden d.fraction_pos ?_ k
  have hden' : (den : ℚ) ≠ 0 := Nat.cast_ne_zero.mpr hden.ne'
  have hfraction' : (d.fraction.2 : ℚ) ≠ 0 := Nat.cast_ne_zero.mpr d.fraction_pos.ne'
  rw [← d.fraction_value, div_eq_div_iff hden' hfraction'] at h
  exact_mod_cast h

theorem roundsTo_of_value_eq {d e : Decimal} (h : d.value = e.value) (k : ℕ) :
    roundsTo d.fraction.1 d.fraction.2 k = roundsTo e.fraction.1 e.fraction.2 k :=
  roundsTo_fraction d.fraction_pos (d.fraction_value.trans h) k

/-! ### Reading a number that rounds to a rank -/

/-- Ten to the 400 is beyond infinity. -/
theorem reaches_of_exponent {d : Decimal} (hd : d.digits ≠ 0) (h : 400 ≤ d.exponent) {k : ℕ}
    (hk : k ≤ top) : reaches d.fraction.1 d.fraction.2 k = true := by
  have hden : d.fraction.2 = 1 := by
    show Nat.pow 10 (-d.exponent).toNat = 1
    rw [Int.toNat_of_nonpos (by omega)]
  have hnum : 10 ^ d.exponent.toNat ≤ d.fraction.1 :=
    Nat.le_mul_of_pos_left _ (Nat.pos_of_ne_zero hd)
  refine reaches_of_lt hk ?_
  rw [hden, Nat.one_mul]
  exact Nat.lt_of_lt_of_le (steps_top_lt (by omega)) (Nat.mul_le_mul_right perOne hnum)

/-- Up to ten to the -400 nothing but zero is reached. -/
theorem not_reaches_of_exponent {d : Decimal} (hd : d.digits ≠ 0)
    (h : d.exponent + (d.digits.log2 + 1) ≤ -400) {k : ℕ} (hk : 0 < k) :
    reaches d.fraction.1 d.fraction.2 k = false := by
  obtain ⟨b, hb⟩ : ∃ b, (-d.exponent).toNat = d.digits.log2 + 1 + b :=
    Nat.exists_eq_add_of_le (by omega)
  have hnum : d.fraction.1 = d.digits := by
    show d.digits * Nat.pow 10 d.exponent.toNat = d.digits
    rw [Int.toNat_of_nonpos (by omega)]
    exact Nat.mul_one _
  have hden : 10 ^ (d.digits.log2 + 1 + b) = d.fraction.2 := by
    rw [← hb]
    rfl
  have hdigits : d.digits ≤ 10 ^ (d.digits.log2 + 1) :=
    Nat.le_trans (Nat.le_of_lt Nat.lt_log2_self) (Nat.pow_le_pow_left (by decide) _)
  refine not_reaches_of_lt hk ?_
  rw [hnum]
  calc d.digits * (perOne * 2) < d.digits * 10 ^ b :=
        Nat.mul_lt_mul_of_pos_left (perOne_lt (by omega)) (Nat.pos_of_ne_zero hd)
    _ ≤ 10 ^ (d.digits.log2 + 1) * 10 ^ b := Nat.mul_le_mul_right _ hdigits
    _ = 10 ^ (d.digits.log2 + 1 + b) := (pow_add _ _ _).symm
    _ = d.fraction.2 := hden

/-- Zero reaches nothing but zero. -/
theorem digits_ne_zero_of_roundsTo {d : Decimal} {k : ℕ} (hk : 0 < k)
    (h : roundsTo d.fraction.1 d.fraction.2 k = true) : d.digits ≠ 0 := by
  intro hzero
  have hnum : d.fraction.1 = 0 := by
    show d.digits * Nat.pow 10 d.exponent.toNat = 0
    rw [hzero, Nat.zero_mul]
  have hnot : reaches 0 d.fraction.2 k = false :=
    not_reaches_of_lt hk (by rw [Nat.zero_mul]; exact d.fraction_pos)
  rw [roundsTo_iff, hnum, hnot] at h
  cases h.1

/-- **Reading a number that rounds to a positive finite rank gives this rank.** -/
theorem rank_eq_of_roundsTo {d : Decimal} {k : ℕ} (hk : 0 < k ∧ k < top)
    (h : roundsTo d.fraction.1 d.fraction.2 k = true) : d.rank = k := by
  have hdigits := digits_ne_zero_of_roundsTo hk.1 h
  obtain ⟨hreaches, hstop⟩ := roundsTo_iff.mp h
  have hhigh : ¬ 400 ≤ d.exponent := by
    intro hle
    rcases hstop with hstop | hstop
    · omega
    · rw [reaches_of_exponent hdigits hle hk.2] at hstop
      cases hstop
  have hlow : ¬ d.exponent + (d.digits.log2 + 1) ≤ -400 := by
    intro hle
    rw [not_reaches_of_exponent hdigits hle hk.1] at hreaches
    cases hreaches
  rw [rank, if_neg hdigits, if_neg hhigh, if_neg hlow]
  exact (nearest_eq_iff d.fraction_pos).mpr ⟨Nat.le_of_lt hk.2, h⟩

theorem rank_le_top (d : Decimal) : d.rank ≤ top := by
  unfold rank
  split
  · exact Nat.zero_le _
  · split
    · exact Nat.le_refl _
    · split
      · exact Nat.zero_le _
      · exact (nearest_passes _ _).1

/-! ### Zeros at the end -/

/-- A number that a power of ten divides is divided by the lower ones. -/
theorem divides_anti (n : ℕ) : ∀ s t : ℕ, s ≤ t → (n % Nat.pow 10 t == 0) = true →
    (n % Nat.pow 10 s == 0) = true := by
  intro s t hst h
  rw [beq_iff_eq] at h ⊢
  exact Nat.mod_eq_zero_of_dvd ((Nat.pow_dvd_pow 10 hst).trans (Nat.dvd_of_mod_eq_zero h))

theorem pow_trailingZeros_dvd (n : ℕ) : 10 ^ trailingZeros n ∣ n := by
  have hpasses := greatest_passes (fun t => n % Nat.pow 10 t == 0) 11 (by simp [Nat.mod_one])
  exact Nat.dvd_of_mod_eq_zero (beq_iff_eq.mp hpasses)

theorem le_trailingZeros {n t : ℕ} (ht : t < 2048) (h : 10 ^ t ∣ n) : t ≤ trailingZeros n :=
  le_greatest (fun t => n % Nat.pow 10 t == 0) 11 (divides_anti n) ht
    (beq_iff_eq.mpr (Nat.mod_eq_zero_of_dvd h))

theorem exponent_trim (d : Decimal) :
    d.trim.exponent = d.exponent + trailingZeros d.digits := rfl

/-- Zeros at the end do not count. -/
theorem value_trim (d : Decimal) : d.trim.value = d.value := by
  obtain ⟨c, hc⟩ := pow_trailingZeros_dvd d.digits
  have hpow : (10 : ℚ) ^ trailingZeros d.digits ≠ 0 := by positivity
  have hdigits : d.trim.digits = c := by
    show d.digits / 10 ^ trailingZeros d.digits = c
    rw [Nat.div_eq_of_eq_mul_right (Nat.pow_pos (by decide)) hc]
  have hcast : (d.digits : ℚ) = 10 ^ trailingZeros d.digits * c := by exact_mod_cast hc
  rw [value, value, hdigits, exponent_trim, zpow_add₀ (by norm_num), zpow_natCast, hcast]
  ring

end Decimal

namespace Rank

/-! ### The grids -/

/-- How many of the units that every double is a whole number of make one. -/
def unitsPerOne : ℕ := Nat.pow 10 1074

theorem pow_eq_unitsPerOne {e : ℕ} (he : e = 1074) : 10 ^ e = unitsPerOne := by
  unfold unitsPerOne
  rw [← he]
  rfl

theorem exists_pow_eq_unitsPerOne : ∃ e, e = 1074 ∧ 10 ^ e = unitsPerOne := by
  obtain ⟨e, he⟩ : ∃ e : ℕ, e = 1074 := ⟨1074, rfl⟩
  exact ⟨e, he, pow_eq_unitsPerOne he⟩

theorem unitsPerOne_pos : 0 < unitsPerOne := by
  obtain ⟨e, -, hunits⟩ := exists_pow_eq_unitsPerOne
  rw [← hunits]
  exact Nat.pow_pos (by decide)

theorem five_mul_perOne : Nat.pow 5 1074 * perOne = unitsPerOne := by
  obtain ⟨e, he, hunits⟩ := exists_pow_eq_unitsPerOne
  rw [← hunits, ← two_pow_eq_perOne he, ← he]
  exact (Nat.mul_pow 5 2 e).symm

theorem decimalSteps_mul (k : ℕ) : decimalSteps k * perOne = unitsPerOne * steps k := by
  rw [decimalSteps, Nat.mul_assoc, five_mul_perOne, Nat.mul_comm]

/-- A number on the grid of a power of ten as a fraction. -/
theorem grid_value (c place : ℕ) : ((c * Nat.pow 10 place : ℕ) : ℚ) / (unitsPerOne : ℚ) =
    (⟨c, (place : ℤ) - 1074⟩ : Decimal).value := by
  obtain ⟨e, he, hunits⟩ := exists_pow_eq_unitsPerOne
  have hcast : (unitsPerOne : ℚ) = 10 ^ e := by
    rw [← hunits]
    exact Nat.cast_pow 10 e
  have hplace : ((Nat.pow 10 place : ℕ) : ℚ) = 10 ^ place := Nat.cast_pow 10 place
  have hexponent : (1074 : ℤ) = e := by omega
  rw [Decimal.value, hexponent, zpow_sub₀ (by norm_num), zpow_natCast, zpow_natCast, Nat.cast_mul,
    hplace, hcast, mul_div_assoc]

theorem roundsTo_grid (c place k : ℕ) :
    roundsTo (c * Nat.pow 10 place) unitsPerOne k =
      roundsTo (⟨c, (place : ℤ) - 1074⟩ : Decimal).fraction.1
        (⟨c, (place : ℤ) - 1074⟩ : Decimal).fraction.2 k :=
  Decimal.roundsTo_fraction unitsPerOne_pos (grid_value c place) k

theorem onGrid?_eq (k count : ℕ) : onGrid? k count =
    ((neighbours (decimalSteps k) (Nat.pow 10 (digitCount (decimalSteps k) - count))).find? fun c =>
      roundsTo (c * Nat.pow 10 (digitCount (decimalSteps k) - count)) unitsPerOne k).map fun c =>
        ⟨c, ((digitCount (decimalSteps k) - count : ℕ) : ℤ) - 1074⟩ := by
  unfold unitsPerOne
  rfl

/-- What is found on a grid rounds to the rank. -/
theorem roundsTo_onGrid {k count : ℕ} {d : Decimal} (h : onGrid? k count = some d) :
    roundsTo d.fraction.1 d.fraction.2 k = true := by
  rw [onGrid?_eq] at h
  obtain ⟨c, hc, rfl⟩ := Option.map_eq_some_iff.mp h
  have hround := List.find?_some hc
  rwa [roundsTo_grid] at hround

/-- The double itself rounds to its rank. -/
theorem roundsTo_exact (k : ℕ) :
    roundsTo (⟨decimalSteps k, -1074⟩ : Decimal).fraction.1
      (⟨decimalSteps k, -1074⟩ : Decimal).fraction.2 k = true := by
  have hself : roundsTo (decimalSteps k * Nat.pow 10 0) unitsPerOne k = true := by
    refine roundsTo_self unitsPerOne_pos ?_
    rw [Nat.pow_eq, pow_zero, Nat.mul_one, decimalSteps_mul]
  have hexponent : ((0 : ℕ) : ℤ) - 1074 = -1074 := by norm_num
  rw [roundsTo_grid, hexponent] at hself
  exact hself

/-- **The number with the fewest digits rounds to the rank it is made for.** -/
theorem roundsTo_shortest (k : ℕ) :
    roundsTo (shortest k).fraction.1 (shortest k).fraction.2 k = true := by
  rw [shortest, Decimal.roundsTo_of_value_eq (Decimal.value_trim _)]
  cases hfound : (List.range' 1 17).findSome? (onGrid? k) with
  | none => exact roundsTo_exact k
  | some d =>
    obtain ⟨count, -, hcount⟩ := List.exists_of_findSome?_eq_some hfound
    exact roundsTo_onGrid hcount

/-! ### Whole numbers -/

/-- A whole number in units. -/
theorem decimalSteps_of_isWhole {k : ℕ} (h : IsWhole k) :
    ∃ n, steps k = n * perOne ∧ decimalSteps k = n * unitsPerOne := by
  obtain ⟨n, hn⟩ := h
  refine ⟨n, by rw [hn, Nat.mul_comm], ?_⟩
  refine Nat.eq_of_mul_eq_mul_right perOne_pos ?_
  rw [decimalSteps_mul, hn]
  ring

/-- A number of units that makes one or more has more than 1074 digits. -/
theorem lt_digitCount {n : ℕ} (h : unitsPerOne ≤ n) : 1074 < digitCount n := by
  have hanti : ∀ s t : ℕ, s ≤ t → decide (Nat.pow 10 t ≤ n) = true →
      decide (Nat.pow 10 s ≤ n) = true := by
    intro s t hst ht
    rw [decide_eq_true_eq] at ht ⊢
    exact Nat.le_trans (Nat.pow_le_pow_right (by decide) hst) ht
  obtain ⟨e, he, hunits⟩ := exists_pow_eq_unitsPerOne
  have hpasses : decide (Nat.pow 10 e ≤ n) = true := by
    rw [decide_eq_true_eq, Nat.pow_eq, hunits]
    exact h
  have hbound : e < Nat.pow 2 11 := by
    rw [he]
    decide
  have hle := le_greatest (fun j => decide (Nat.pow 10 j ≤ n)) 11 hanti hbound hpasses
  rw [digitCount]
  omega

/-- A whole number is found on the grid of ones. -/
theorem isSome_onGrid? {k : ℕ} (count : ℕ) (hwhole : IsWhole k)
    (hplace : digitCount (decimalSteps k) - count = 1074) : (onGrid? k count).isSome := by
  obtain ⟨n, hn, hunits⟩ := decimalSteps_of_isWhole hwhole
  have hround : roundsTo (n * unitsPerOne) unitsPerOne k = true := by
    refine roundsTo_self unitsPerOne_pos ?_
    rw [hn]
    ring
  have hnear : neighbours (decimalSteps k) unitsPerOne = [n, n + 1] := by
    have hpos := unitsPerOne_pos
    have hlow : decimalSteps k / unitsPerOne = n := by rw [hunits, Nat.mul_div_cancel _ hpos]
    rw [neighbours, hlow, if_neg]
    rw [hunits, Nat.add_mul, Nat.mul_assoc]
    omega
  rw [onGrid?_eq, Nat.pow_eq, pow_eq_unitsPerOne hplace, hnear, List.find?_cons, hround]
  rfl

/-- The number found has no fraction, if it has no more digits than the whole part
of the double. -/
theorem exponent_onGrid {k count : ℕ} {d : Decimal}
    (hcount : count + 1074 ≤ digitCount (decimalSteps k)) (h : onGrid? k count = some d) :
    0 ≤ d.exponent := by
  rw [onGrid?_eq] at h
  obtain ⟨c, -, rfl⟩ := Option.map_eq_some_iff.mp h
  show 0 ≤ ((digitCount (decimalSteps k) - count : ℕ) : ℤ) - 1074
  omega

/-- A search through numbers of digits stops at the first that gives something. -/
theorem exists_first {α : Type} {f : ℕ → Option α} {n : ℕ} {a : α}
    (h : (List.range' 1 n).findSome? f = some a) :
    ∃ count, f count = some a ∧ count ≤ n ∧ ∀ j, 1 ≤ j → j < count → f j = none := by
  obtain ⟨before, count, after, hrange, hcount, hnone⟩ := List.findSome?_eq_some_iff.mp h
  have hbound : count ∈ List.range' 1 n := by rw [hrange]; simp
  have hle := (List.mem_range'_1.mp hbound).2
  refine ⟨count, hcount, by omega, fun j hj hlt => hnone j ?_⟩
  have hmem : j ∈ List.range' 1 n := List.mem_range'_1.mpr ⟨hj, by omega⟩
  have hsorted : (List.range' 1 n).Pairwise (· < ·) := List.pairwise_lt_range'
  rw [hrange] at hmem hsorted
  rcases List.mem_append.mp hmem with hbefore | hrest
  · exact hbefore
  · rcases List.mem_cons.mp hrest with heq | hafter
    · omega
    · have hlater := List.rel_of_pairwise_cons (List.pairwise_append.mp hsorted).2.1 hafter
      omega

/-- A whole number of ones ends with as many zeros as its digits are moved. -/
theorem exponent_trim_of_dvd {n : ℕ} (h : unitsPerOne ∣ n) :
    0 ≤ (⟨n, -1074⟩ : Decimal).trim.exponent := by
  obtain ⟨e, he, hunits⟩ := exists_pow_eq_unitsPerOne
  rw [← hunits] at h
  have hle := Decimal.le_trailingZeros (by omega) h
  rw [Decimal.exponent_trim]
  show 0 ≤ (-1074 : ℤ) + (Decimal.trailingZeros n : ℤ)
  omega

/-- **A double that is a whole number gets a decimal number without fraction.** -/
theorem exponent_shortest {k : ℕ} (hk : 0 < k) (hwhole : IsWhole k) :
    0 ≤ (shortest k).exponent := by
  obtain ⟨n, hn, hunits⟩ := decimalSteps_of_isWhole hwhole
  have hpos : 0 < n := by
    have hsteps := steps_lt hk
    refine Nat.pos_of_ne_zero fun hzero => ?_
    rw [hn, hzero, Nat.zero_mul] at hsteps
    omega
  have hdigits : 1074 < digitCount (decimalSteps k) :=
    lt_digitCount (by rw [hunits]; exact Nat.le_mul_of_pos_left _ hpos)
  rw [shortest]
  cases hfound : (List.range' 1 17).findSome? (onGrid? k) with
  | none => exact exponent_trim_of_dvd (by rw [hunits]; exact Dvd.intro_left n rfl)
  | some d =>
    obtain ⟨count, hcount, -, hbefore⟩ := exists_first hfound
    have hle : count + 1074 ≤ digitCount (decimalSteps k) := by
      by_contra hlt
      -- the grid of ones was tried before
      have hsome := isSome_onGrid? (digitCount (decimalSteps k) - 1074) hwhole (by omega)
      rw [hbefore _ (by omega) (by omega)] at hsome
      cases hsome
    have hexponent := exponent_onGrid hle hcount
    rw [Option.getD_some, Decimal.exponent_trim]
    omega

end Rank
end AssignLang
