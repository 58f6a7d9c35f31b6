/-
# Doubles and their bits

The rank of a double without sign is its bit pattern, so the double of a rank
gives back the rank. A number is written from its rank; so the text of a finite
double without sign is the decimal number that is written for its rank. Written by
position, it is read as the same double.

Key theorems: `Rank.toBits_toFloat`, `Rank.not_toFloat_lt_zero`, `Rank.reads_plain`,
`Rank.reads_pointed`.
-/
import Mathlib
import AssignLang.Proofs.Number.Positional

namespace AssignLang
namespace Rank

open Float.Model Float.Model.UnpackedFloat

theorem toNat_toUInt64 {k : ℕ} (hk : k ≤ top) : k.toUInt64.toNat = k := by
  have htop : top = 9218868437227405312 := rfl
  exact Nat.mod_eq_of_lt (by omega)

/-- Up to the bits of infinity no bits are those of a NaN. -/
theorem isNaNBits_eq_false {k : ℕ} (hk : k ≤ top) :
    @isNaNBits Format.binary64 k.toUInt64.toBitVec = false := by
  have htop : top = 9218868437227405312 := rfl
  have hnat : k.toUInt64.toBitVec.toNat = k := toNat_toUInt64 hk
  rw [isNaNBits, decide_eq_false_iff_not, unpackExponent_def, unpackMantissa_def]
  rintro ⟨hexponent, hmantissa⟩
  have hones := congrArg BitVec.toNat hexponent
  rw [BitVec.extractLsb'_toNat, hnat, Nat.shiftRight_eq_div_pow] at hones
  have hones' : k / 2 ^ 52 % 2 ^ 11 = 2047 := hones
  refine hmantissa (BitVec.eq_of_toNat_eq ?_)
  rw [BitVec.extractLsb'_toNat, hnat, Nat.shiftRight_zero]
  show k % 2 ^ 52 = 0
  omega

/-- **The bits of a double are its rank.** -/
theorem toBits_toFloat {k : ℕ} (hk : k ≤ top) : (toFloat k).toBits = k.toUInt64 := by
  have hpack := @pack_unpack Format.binary64 k.toUInt64.toBitVec (by decide)
  rw [isNaNBits_eq_false hk, if_neg Bool.false_ne_true] at hpack
  exact congrArg UInt64.ofBitVec hpack

theorem toNat_toBits {k : ℕ} (hk : k ≤ top) : (toFloat k).toBits.toNat = k := by
  rw [toBits_toFloat hk, toNat_toUInt64 hk]

theorem ofFloat_toFloat {k : ℕ} (hk : k ≤ top) : ofFloat (toFloat k) = k := by
  rw [ofFloat, toNat_toBits hk]
  exact Nat.mod_eq_of_lt (Nat.lt_of_le_of_lt hk (by decide))

/-- A double that has a rank is no NaN. -/
theorem isNaN_toFloat {k : ℕ} (hk : k ≤ top) : (toFloat k).isNaN = false := by
  have htop : top = 9218868437227405312 := rfl
  have hnan : Float.nan.toBits.toNat = 9221120237041090560 := by decide
  rw [Float.isNaN_eq_decide_eq_nan, decide_eq_false_iff_not]
  intro heq
  have hbits := toNat_toBits hk
  rw [heq, hnan] at hbits
  omega

/-- A double that has a rank is not zero with a minus sign. -/
theorem toFloat_ne_neg_zero {k : ℕ} (hk : k ≤ top) : toFloat k ≠ -0 := by
  have htop : top = 9218868437227405312 := rfl
  have hnegative : (-0 : Float).toBits.toNat = 9223372036854775808 := by decide
  intro heq
  have hbits := toNat_toBits hk
  rw [heq, hnegative] at hbits
  omega

/-- A double without sign that is equal to zero is zero. -/
theorem eq_zero_of_beq {k : ℕ} (hk : k ≤ top) (h : (toFloat k == 0) = true) : k = 0 := by
  have hzero : (0 : Float).toBits.toNat = 0 := by decide
  have hplus : (0 : Float) ≠ -0 := toFloat_ne_neg_zero (Nat.zero_le top)
  obtain ⟨-, -, heq | ⟨heq, -⟩ | ⟨heq, -⟩⟩ := Float.beq_iff_ne_nan_and_eq.mp h
  · rw [← toNat_toBits hk, heq, hzero]
  · rw [← toNat_toBits hk, heq, hzero]
  · exact absurd heq (toFloat_ne_neg_zero hk)

/-! ### The sign -/

theorem unpackSign_eq_zero {k : ℕ} (hk : k ≤ top) :
    @unpackSign Format.binary64 k.toUInt64.toBitVec = 0#1 := by
  have htop : top = 9218868437227405312 := rfl
  have hnat : k.toUInt64.toBitVec.toNat = k := toNat_toUInt64 hk
  rw [unpackSign_def]
  refine BitVec.eq_of_toNat_eq ?_
  rw [BitVec.extractLsb'_toNat, hnat, Nat.shiftRight_eq_div_pow]
  show k / 2 ^ 63 % 2 ^ 1 = 0
  omega

/-- Bits without sign are those of no double below zero. -/
theorem lt_zero_eq_false {b : BitVec Format.binary64.numBits} (h : unpackSign b = 0#1) :
    (UnpackedFloat.unpack .binary64 b).lt (.zero .positive) = false := by
  have hsign : Sign.ofBitVec 0#1 = .positive := rfl
  unfold UnpackedFloat.unpack
  simp only [h, hsign]
  split
  · split <;> rfl
  · split
    · split <;> rfl
    · rfl

/-- **A double that has a rank is not below zero.** -/
theorem not_toFloat_lt_zero {k : ℕ} (hk : k ≤ top) : ¬ toFloat k < 0 := by
  have hzero : (0 : Float).toModel.unpack = .zero .positive := rfl
  have hbits : (toFloat k).toModel.toBits = k.toUInt64 := toBits_toFloat hk
  intro hlt
  have hmodel : (UnpackedFloat.unpack .binary64 (toFloat k).toModel.toBits.toBitVec).lt
      (0 : Float).toModel.unpack = true := of_decide_eq_true hlt
  rw [hzero, hbits, lt_zero_eq_false (unpackSign_eq_zero hk)] at hmodel
  cases hmodel

/-! ### Texts of doubles -/

/-- The text of a finite double without sign is written for its rank. -/
theorem write_toFloat {k : ℕ} (hk : k < top) (style : Style) :
    style.write (toFloat k) = String.ofList (style.writeRank k) := by
  have hsign : (toFloat k).toBits.toNat < Nat.pow 2 63 := by
    rw [toNat_toBits hk.le]
    exact Nat.lt_of_lt_of_le hk (by decide)
  rw [Style.write, Style.writeChars, isNaN_toFloat hk.le, if_neg Bool.false_ne_true,
    ofFloat_toFloat hk.le]
  dsimp only
  rw [if_neg hk.ne, if_pos hsign]

/-- A style that writes a double by position writes the number of its rank. -/
theorem write_byPosition {k : ℕ} (hk : k < top) (style : Style)
    (h : k = 0 ∨ style.byPosition (toFloat k) = true) :
    style.write (toFloat k) = String.ofList ((written k).positional style.keepPoint) := by
  rw [write_toFloat hk, Style.writeRank, written]
  by_cases hzero : k = 0
  · rw [if_pos hzero, if_pos hzero]
  · rw [if_neg hzero, if_neg hzero, if_pos (h.resolve_left hzero)]

/-- **A finite whole double without sign is written as a whole numeral that is read
as the same double.** -/
theorem reads_plain {k : ℕ} (hk : k ≤ top) (hwhole : IsWhole k)
    (hfinite : (toFloat k).isFinite = true) :
    IsLexeme (Style.plain.write (toFloat k)).toList .literalInt ∧
      Numeral.read (Style.plain.write (toFloat k)) = .ok (toFloat k) := by
  have hlt : k < top := by
    refine Nat.lt_of_le_of_ne hk ?_
    rintro rfl
    have hinfinite : (toFloat top).isFinite = false := by decide
    rw [hinfinite] at hfinite
    cases hfinite
  rw [write_byPosition hlt .plain (.inr rfl), String.toList_ofList]
  exact reads_written_whole hlt hwhole

/-- **A double that is zero or lies in the range of the pointed style is written as
a real numeral that is read as the same double.** -/
theorem reads_pointed {k : ℕ} (hk : k ≤ top)
    (hrange : (toFloat k == 0) = true ∨ (1e-4 ≤ toFloat k ∧ toFloat k < 1e16)) :
    IsLexeme (Style.pointed.write (toFloat k)).toList .literalReal ∧
      Numeral.read (Style.pointed.write (toFloat k)) = .ok (toFloat k) := by
  obtain ⟨hlt, hposition⟩ : k < top ∧ (k = 0 ∨ Style.pointed.byPosition (toFloat k) = true) := by
    rcases hrange with hzero | ⟨hlow, hhigh⟩
    · rw [eq_zero_of_beq hk hzero]
      exact ⟨by decide, .inl rfl⟩
    · refine ⟨Nat.lt_of_le_of_ne hk ?_, .inr ?_⟩
      · rintro rfl
        have hnot : ¬ toFloat top < 1e16 := by decide
        exact hnot hhigh
      · simp [Style.pointed, hlow, hhigh]
  rw [write_byPosition hlt .pointed hposition, String.toList_ofList]
  exact reads_written_real hlt

end Rank
end AssignLang
