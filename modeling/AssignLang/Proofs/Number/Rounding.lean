/-
# Rounding to a rank

The steps of the ranks increase strictly, and so do the borders between them. So
a fraction that reaches a rank reaches every lower one, and lies between the two
borders of one rank only: the rank that it rounds to is the one that
`Rank.nearest` finds. Whether a fraction reaches a rank depends on its value
alone, and the value of a rank itself reaches it and not the next one.

Whole numbers below 2^53 are the values of ranks, and from 2^53 on the value of
every rank is whole; so a whole number never rounds to a value with a fraction.

Key definitions: `Rank.perOne`, `Rank.IsWhole`.
Key theorems: `Rank.steps_lt`, `Rank.reaches_anti`, `Rank.nearest_eq_iff`,
`Rank.roundsTo_congr`, `Rank.roundsTo_self`, `Rank.isWhole_nearest`.
-/
import AssignLang.Number.Rank
import Mathlib.Tactic.Ring
import Mathlib.Tactic.Linarith

namespace AssignLang
namespace Rank

theorem binade_pos : 0 < binade := Nat.two_pow_pos 52

/-- How many steps make one. -/
def perOne : Nat := Nat.pow 2 1074

-- The exponents are variables: no tactic forms a power as large as these.

theorem two_pow_eq_perOne {e : Nat} (h : e = 1074) : 2 ^ e = perOne := by
  unfold perOne
  rw [← h]
  rfl

theorem exists_two_pow_eq_perOne : ∃ e, e = 1074 ∧ 2 ^ e = perOne := by
  obtain ⟨e, he⟩ : ∃ e : Nat, e = 1074 := ⟨1074, rfl⟩
  exact ⟨e, he, two_pow_eq_perOne he⟩

theorem perOne_pos : 0 < perOne := by
  obtain ⟨e, -, hone⟩ := exists_two_pow_eq_perOne
  rw [← hone]
  exact Nat.two_pow_pos e

theorem perOne_mul_two : perOne * 2 = Nat.pow 2 1075 := by
  obtain ⟨e, he, hone⟩ := exists_two_pow_eq_perOne
  have hnext : e + 1 = 1075 := by omega
  rw [← hone, ← hnext]
  rfl

/-- A power of ten is beyond the power of two with three times its exponent. -/
theorem two_pow_lt_ten_pow {a e : Nat} (he : 0 < e) (h : a ≤ 3 * e) : 2 ^ a < 10 ^ e := by
  calc 2 ^ a ≤ 2 ^ (3 * e) := Nat.pow_le_pow_right (by decide) h
    _ = 8 ^ e := pow_mul 2 3 e
    _ < 10 ^ e := Nat.pow_lt_pow_left (by decide) he.ne'

theorem perOne_lt {e : Nat} (he : 400 ≤ e) : perOne * 2 < 10 ^ e := by
  obtain ⟨i, hi, hone⟩ := exists_two_pow_eq_perOne
  rw [← hone, ← pow_succ]
  exact two_pow_lt_ten_pow (by omega) (by omega)

/-! ### Steps and borders -/

theorem steps_of_lt {k : Nat} (h : k < binade) : steps k = k := if_pos h

/-- The ranks of a power of two and of the doubles after it. -/
theorem steps_add (e : Nat) {m : Nat} (hm : m < binade) :
    steps ((e + 1) * binade + m) = (binade + m) * 2 ^ e := by
  have hle : ¬ (e + 1) * binade + m < binade := by
    rw [Nat.add_mul, Nat.one_mul]
    omega
  have hmod : ((e + 1) * binade + m) % binade = m := by
    rw [Nat.mul_comm, Nat.mul_add_mod, Nat.mod_eq_of_lt hm]
  have hdiv : ((e + 1) * binade + m) / binade = e + 1 := by
    rw [Nat.mul_comm, Nat.mul_add_div binade_pos, Nat.div_eq_of_lt hm, Nat.add_zero]
  rw [steps, if_neg hle, hmod, hdiv, Nat.add_sub_cancel]
  rfl

/-- Every rank is that of a subnormal, or stands in the binade of a power of two. -/
theorem exists_place (k : Nat) : k < binade ∨ ∃ e m, m < binade ∧ k = (e + 1) * binade + m := by
  by_cases h : k < binade
  · exact .inl h
  · have hdiv : 1 ≤ k / binade := (Nat.one_le_div_iff binade_pos).mpr (Nat.not_lt.mp h)
    refine .inr ⟨k / binade - 1, k % binade, Nat.mod_lt _ binade_pos, ?_⟩
    rw [Nat.sub_add_cancel hdiv, Nat.mul_comm, Nat.div_add_mod]

theorem steps_lt_succ (k : Nat) : steps k < steps (k + 1) := by
  rcases exists_place k with h | ⟨e, m, hm, rfl⟩
  · rw [steps_of_lt h]
    by_cases hk : k + 1 < binade
    · rw [steps_of_lt hk]
      omega
    · have hnext : k + 1 = (0 + 1) * binade + 0 := by omega
      rw [hnext, steps_add 0 binade_pos]
      omega
  · rw [steps_add e hm]
    by_cases hnext : m + 1 < binade
    · rw [Nat.add_assoc, steps_add e hnext]
      exact Nat.mul_lt_mul_of_pos_right (by omega) (Nat.two_pow_pos e)
    · -- the last rank of a binade
      have hplace : (e + 1) * binade + m + 1 = (e + 1 + 1) * binade + 0 := by
        rw [Nat.add_mul (e + 1) 1]
        omega
      rw [hplace, steps_add (e + 1) binade_pos, Nat.add_zero, pow_succ]
      calc (binade + m) * 2 ^ e < (2 * binade) * 2 ^ e :=
            Nat.mul_lt_mul_of_pos_right (by omega) (Nat.two_pow_pos e)
        _ = binade * (2 ^ e * 2) := by ring

theorem steps_lt {j k : Nat} (h : j < k) : steps j < steps k := strictMono_nat_of_lt_succ steps_lt_succ h

theorem steps_le {j k : Nat} (h : j ≤ k) : steps j ≤ steps k := (strictMono_nat_of_lt_succ steps_lt_succ).monotone h

theorem border_lt_succ (k : Nat) : border k < border (k + 1) :=
  Nat.add_lt_add (steps_lt_succ k) (steps_lt_succ (k + 1))

/-! ### Reaching -/

theorem reaches_succ_iff {num den k : Nat} : reaches num den (k + 1) = true ↔
    den * border k < num * (perOne * 2) ∨
      den * border k = num * (perOne * 2) ∧ (k + 1) % 2 = 0 := by
  simp only [reaches, Bool.or_eq_true, decide_eq_true_eq, Bool.and_eq_true, beq_iff_eq,
    perOne_mul_two]

/-- A fraction that reaches a rank reaches the one before it. -/
theorem reaches_of_succ {num den k : Nat} (hden : 0 < den) (h : reaches num den (k + 1) = true) :
    reaches num den k = true := by
  cases k with
  | zero => rfl
  | succ k =>
    have hborder : den * border k < den * border (k + 1) :=
      Nat.mul_lt_mul_of_pos_left (border_lt_succ k) hden
    rw [reaches_succ_iff] at h ⊢
    omega

/-- **A fraction that reaches a rank reaches every lower one.** -/
theorem reaches_anti {num den : Nat} (hden : 0 < den) {j k : Nat} (hjk : j ≤ k)
    (h : reaches num den k = true) : reaches num den j = true := by
  induction hjk with
  | refl => exact h
  | step _ ih => exact ih (reaches_of_succ hden h)

theorem roundsTo_iff {num den k : Nat} : roundsTo num den k = true ↔
    reaches num den k = true ∧ (k = top ∨ reaches num den (k + 1) = false) := by
  simp [roundsTo]

/-- The test that the search for the rank makes. -/
theorem test_iff {num den k : Nat} :
    (decide (k ≤ top) && reaches num den k) = true ↔ k ≤ top ∧ reaches num den k = true := by
  rw [Bool.and_eq_true, decide_eq_true_eq]

/-- What is found is no rank above infinity, and the fraction reaches it. -/
theorem nearest_passes (num den : Nat) :
    nearest num den ≤ top ∧ reaches num den (nearest num den) = true := by
  have hzero : (decide (0 ≤ top) && reaches num den 0) = true := test_iff.mpr ⟨Nat.zero_le _, rfl⟩
  exact test_iff.mp (greatest_passes (fun k => decide (k ≤ top) && reaches num den k) 63 hzero)

/-- No rank above the one that is found is reached. -/
theorem le_nearest {num den k : Nat} (hden : 0 < den) (hk : k ≤ top)
    (h : reaches num den k = true) : k ≤ nearest num den := by
  have hanti : ∀ m n : Nat, m ≤ n → (decide (n ≤ top) && reaches num den n) = true →
      (decide (m ≤ top) && reaches num den m) = true := by
    intro m n hmn hn
    obtain ⟨hle, hreaches⟩ := test_iff.mp hn
    exact test_iff.mpr ⟨Nat.le_trans hmn hle, reaches_anti hden hmn hreaches⟩
  have htop : top < Nat.pow 2 63 := by decide
  exact le_greatest _ 63 hanti (Nat.lt_of_le_of_lt hk htop) (test_iff.mpr ⟨hk, h⟩)

/-- **The rank that is found is the one that a fraction rounds to.** -/
theorem nearest_eq_iff {num den k : Nat} (hden : 0 < den) :
    nearest num den = k ↔ k ≤ top ∧ roundsTo num den k = true := by
  obtain ⟨hle, hreaches⟩ := nearest_passes num den
  rw [roundsTo_iff]
  constructor
  · rintro rfl
    refine ⟨hle, hreaches, ?_⟩
    by_cases htop : nearest num den = top
    · exact .inl htop
    · refine .inr (Bool.eq_false_iff.mpr fun hnext => ?_)
      have hlt : nearest num den + 1 ≤ top := Nat.lt_of_le_of_ne hle htop
      have := le_nearest hden hlt hnext
      omega
  · rintro ⟨hk, hreaches', hstop⟩
    have hge := le_nearest hden hk hreaches'
    by_contra hne
    have hlt : k + 1 ≤ nearest num den := Nat.lt_of_le_of_ne hge (Ne.symm hne)
    rcases hstop with rfl | hstop
    · omega
    · rw [reaches_anti hden hlt hreaches] at hstop
      cases hstop

/-! ### Fractions out of range -/

/-- Below the first border nothing is reached but zero. -/
theorem not_reaches_of_lt {num den k : Nat} (hk : 0 < k) (h : num * (perOne * 2) < den) :
    reaches num den k = false := by
  obtain ⟨j, rfl⟩ := Nat.exists_eq_succ_of_ne_zero hk.ne'
  have hborder : 0 < border j := Nat.add_pos_right _ (Nat.zero_lt_of_lt (steps_lt_succ j))
  have hle : den ≤ den * border j := Nat.le_mul_of_pos_right den hborder
  refine Bool.eq_false_iff.mpr fun hreaches => ?_
  rw [reaches_succ_iff] at hreaches
  omega

/-- Counting infinity as 2^1024. -/
theorem steps_top_lt {e : Nat} (he : 400 ≤ e) : steps top < 10 ^ e * perOne := by
  obtain ⟨i, hi, hone⟩ := exists_two_pow_eq_perOne
  obtain ⟨j, hj⟩ : ∃ j : Nat, j = 972 := ⟨972, rfl⟩
  have htop : top = (i + j + 1) * binade + 0 := by
    rw [hi, hj]
    rfl
  have hbinade : binade = 2 ^ 52 := rfl
  calc steps top = 2 ^ (52 + j) * 2 ^ i := by
        rw [htop, steps_add (i + j) binade_pos, hbinade]
        ring
    _ = 2 ^ (52 + j) * perOne := by rw [hone]
    _ < 10 ^ e * perOne :=
        Nat.mul_lt_mul_of_pos_right (two_pow_lt_ten_pow (by omega) (by omega)) perOne_pos

/-- Above the last border every rank is reached. -/
theorem reaches_of_lt {num den k : Nat} (hk : k ≤ top)
    (h : den * steps top < num * perOne) : reaches num den k = true := by
  cases k with
  | zero => rfl
  | succ k =>
    have hborder : border k ≤ steps top * 2 := by
      have := steps_le (Nat.le_of_lt hk)
      have := steps_le hk
      rw [border]
      omega
    rw [reaches_succ_iff]
    refine .inl ?_
    calc den * border k ≤ den * (steps top * 2) := Nat.mul_le_mul_left den hborder
      _ = den * steps top * 2 := (Nat.mul_assoc _ _ _).symm
      _ < num * perOne * 2 := Nat.mul_lt_mul_of_pos_right h (by decide)
      _ = num * (perOne * 2) := Nat.mul_assoc _ _ _

/-! ### Fractions of one value -/

/-- Whether a fraction reaches a rank depends on its value. -/
theorem reaches_congr {num den num' den' : Nat} (hden : 0 < den) (hden' : 0 < den')
    (h : num * den' = num' * den) (k : Nat) : reaches num den k = reaches num' den' k := by
  have hleft : ∀ a, den' * (den * a) = den * (den' * a) := fun a => Nat.mul_left_comm den' den a
  have hright : ∀ b, den' * (num * b) = den * (num' * b) := by
    intro b
    calc den' * (num * b) = num * den' * b := by ring
      _ = num' * den * b := by rw [h]
      _ = den * (num' * b) := by ring
  have hlt : ∀ a b, den * a < num * b ↔ den' * a < num' * b := by
    intro a b
    rw [← Nat.mul_lt_mul_left hden', hleft, hright, Nat.mul_lt_mul_left hden]
  have heq : ∀ a b, den * a = num * b ↔ den' * a = num' * b := by
    intro a b
    rw [← Nat.mul_left_cancel_iff hden', hleft, hright, Nat.mul_left_cancel_iff hden]
  cases k with
  | zero => rfl
  | succ k => rw [Bool.eq_iff_iff, reaches_succ_iff, reaches_succ_iff, hlt, heq]

theorem roundsTo_congr {num den num' den' : Nat} (hden : 0 < den) (hden' : 0 < den')
    (h : num * den' = num' * den) (k : Nat) : roundsTo num den k = roundsTo num' den' k := by
  rw [roundsTo, roundsTo, reaches_congr hden hden' h, reaches_congr hden hden' h]

/-! ### The value of a rank -/

/-- The value of a rank rounds to the rank. -/
theorem roundsTo_self {num den k : Nat} (hden : 0 < den)
    (h : num * perOne = den * steps k) : roundsTo num den k = true := by
  have hdouble : num * (perOne * 2) = den * (steps k + steps k) := by
    rw [← Nat.mul_assoc, h]
    ring
  have hborder : ∀ {a b : Nat}, a < b → den * a < den * b := fun hab =>
    Nat.mul_lt_mul_of_pos_left hab hden
  rw [roundsTo_iff]
  constructor
  · cases k with
    | zero => rfl
    | succ k =>
      rw [reaches_succ_iff, hdouble]
      exact .inl (hborder (Nat.add_lt_add_right (steps_lt_succ k) _))
  · refine .inr (Bool.eq_false_iff.mpr fun hnext => ?_)
    rw [reaches_succ_iff, hdouble] at hnext
    have hlt := hborder (Nat.add_lt_add_left (steps_lt_succ k) (steps k))
    have hdef : border k = steps k + steps (k + 1) := rfl
    rw [← hdef] at hlt
    omega

/-! ### Whole numbers -/

/-- The value of the rank is a whole number. -/
def IsWhole (k : Nat) : Prop := perOne ∣ steps k

/-- From 2^52 on the doubles are one or more apart. -/
theorem isWhole_of_le {k : Nat} (h : (1074 + 1) * binade ≤ k) : IsWhole k := by
  rcases exists_place k with hk | ⟨e, m, hm, rfl⟩
  · omega
  · have he : 1074 ≤ e := by
      by_contra hlt
      have hle : (e + 1) * binade ≤ 1074 * binade := Nat.mul_le_mul_right binade (by omega)
      omega
    have hsplit : 2 ^ e = 2 ^ (e - (e - 1074)) * 2 ^ (e - 1074) := by
      rw [← pow_add, Nat.sub_add_cancel (Nat.sub_le e 1074)]
    rw [IsWhole, steps_add e hm, hsplit, two_pow_eq_perOne (by omega)]
    exact Dvd.dvd.mul_left (Dvd.intro _ rfl) _

/-- Every whole number below 2^53 is the value of a rank. -/
theorem exists_steps_eq {n : Nat} (hn : n < 2 ^ 53) : ∃ k, k < top ∧ steps k = n * perOne := by
  by_cases hzero : n = 0
  · exact ⟨0, by decide, by rw [hzero, Nat.zero_mul]; rfl⟩
  · -- the binade of `n`, and the place of `n` in it
    have hlow : 2 ^ n.log2 ≤ n := Nat.log2_self_le hzero
    have hhigh : n < 2 ^ (n.log2 + 1) := Nat.lt_log2_self
    have hbits : n.log2 < 53 := (Nat.log2_lt hzero).mpr hn
    generalize n.log2 = bits at hlow hhigh hbits
    have hshift : binade = 2 ^ bits * 2 ^ (52 - bits) := by
      rw [← pow_add, Nat.add_sub_cancel' (by omega)]
      rfl
    have hge : binade ≤ n * 2 ^ (52 - bits) := by
      rw [hshift]
      exact Nat.mul_le_mul_right _ hlow
    have hlt : n * 2 ^ (52 - bits) < binade + binade := by
      calc n * 2 ^ (52 - bits) < 2 ^ (bits + 1) * 2 ^ (52 - bits) :=
            Nat.mul_lt_mul_of_pos_right hhigh (Nat.two_pow_pos _)
        _ = binade + binade := by rw [hshift]; ring
    refine ⟨(1022 + bits + 1) * binade + (n * 2 ^ (52 - bits) - binade), ?_, ?_⟩
    · have hle : (1022 + bits + 1) * binade ≤ 1075 * binade :=
        Nat.mul_le_mul_right binade (by omega)
      rw [top]
      omega
    · rw [steps_add (1022 + bits) (by omega), Nat.add_sub_cancel' hge, Nat.mul_assoc, ← pow_add]
      have hexponent : 52 - bits + (1022 + bits) = 1074 := by omega
      rw [two_pow_eq_perOne hexponent]

/-- More reaches more. -/
theorem reaches_mono {m n den k : Nat} (hmn : m ≤ n) (h : reaches m den k = true) :
    reaches n den k = true := by
  cases k with
  | zero => rfl
  | succ k =>
    have hle : m * (perOne * 2) ≤ n * (perOne * 2) := Nat.mul_le_mul_right _ hmn
    rw [reaches_succ_iff] at h ⊢
    omega

/-- **A whole number rounds to a whole number.** -/
theorem isWhole_nearest (n : Nat) : IsWhole (nearest n 1) := by
  by_cases hn : n < 2 ^ 53
  · obtain ⟨k, hk, hsteps⟩ := exists_steps_eq hn
    have hround : roundsTo n 1 k = true :=
      roundsTo_self Nat.one_pos (by rw [hsteps, Nat.one_mul])
    rw [(nearest_eq_iff Nat.one_pos).mpr ⟨Nat.le_of_lt hk, hround⟩, IsWhole, hsteps]
    exact Dvd.intro_left n rfl
  · -- the number is at least that of the rank of 2^53
    have hplace : steps ((1075 + 1) * binade) = 2 ^ 53 * perOne := by
      obtain ⟨e, he, hone⟩ := exists_two_pow_eq_perOne
      have hrank : (1075 + 1) * binade = (e + 1 + 1) * binade + 0 := by
        rw [he]
        rfl
      have hbinade : binade * 2 = 2 ^ 53 := rfl
      calc steps ((1075 + 1) * binade) = binade * 2 ^ (e + 1) := by
            rw [hrank, steps_add (e + 1) binade_pos, Nat.add_zero]
        _ = binade * 2 * perOne := by
            rw [← hone]
            ring
        _ = 2 ^ 53 * perOne := by rw [hbinade]
    have hround : roundsTo (2 ^ 53) 1 ((1075 + 1) * binade) = true :=
      roundsTo_self Nat.one_pos (by rw [hplace, Nat.one_mul])
    have hreaches := reaches_mono (Nat.not_lt.mp hn) (roundsTo_iff.mp hround).1
    have hle := le_nearest Nat.one_pos (by decide) hreaches
    exact isWhole_of_le (Nat.le_trans (Nat.mul_le_mul_right binade (by decide)) hle)

end Rank
end AssignLang
