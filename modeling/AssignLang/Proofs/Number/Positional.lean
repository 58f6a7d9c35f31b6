/-
# What is written by position is read back

A number written by position is digits, or digits, a point and digits; whichever
it is, these are the digits of a decimal number of the same value. So a numeral
written by position is read as the double that it was written for: its fewest
digits round to that double. With a point it is a real numeral; without one, and
for a double that is a whole number, it is a whole numeral.

Key definitions: `DigitsOf`, `Rank.written`.
Key theorems: `Decimal.digitsOf_parts`, `Rank.rank_of_value_written`,
`Rank.reads_written_real`, `Rank.reads_written_whole`.
-/
import AssignLang.Number.Numeral
import AssignLang.Number.Style
import AssignLang.Proofs.Lexing.Lexemes
import AssignLang.Proofs.Number.Decimals

namespace AssignLang

open Numeral

/-! ### Digits -/

/-- The digits before and after the point are those of a number of the value. -/
structure DigitsOf (x : ℚ) (whole part : List Char) : Prop where
  ne_nil : whole ≠ []
  whole_digits : ∀ c ∈ whole, c.isDigit = true
  part_digits : ∀ c ∈ part, c.isDigit = true
  value_eq : (⟨digitsValue (whole ++ part), -(part.length : ℤ)⟩ : Decimal).value = x

namespace Decimal

theorem isDigit_toDigits (n : ℕ) : ∀ c ∈ Nat.toDigits 10 n, c.isDigit = true :=
  fun _ hc => Nat.isDigit_of_mem_toDigits (by decide) (by decide) hc

theorem isDigit_digitChars (d : Decimal) : ∀ c ∈ d.digitChars, c.isDigit = true :=
  isDigit_toDigits d.digits

theorem isDigit_zeros (n : ℕ) : ∀ c ∈ zeros n, c.isDigit = true := by
  intro c hc
  rw [List.eq_of_mem_replicate hc]
  rfl

theorem digitsValue_digitChars (d : Decimal) : digitsValue d.digitChars = d.digits :=
  Nat.ofDigitChars_ten_toDigits

theorem digitsValue_append_zeros (ds : List Char) (n : ℕ) :
    digitsValue (ds ++ zeros n) = digitsValue ds * 10 ^ n := by
  rw [digitsValue, Nat.ofDigitChars_append, zeros, Nat.ofDigitChars_replicate_zero, Nat.mul_comm]
  rfl

theorem digitsValue_zeros_append (ds : List Char) (n : ℕ) :
    digitsValue (zeros n ++ ds) = digitsValue ds := by
  rw [digitsValue, Nat.ofDigitChars_append, zeros, Nat.ofDigitChars_replicate_zero, Nat.mul_zero]
  rfl

end Decimal

/-- A zero after the last digit is a digit of the same number. -/
theorem DigitsOf.append_zero {x : ℚ} {ds : List Char} (h : DigitsOf x ds []) :
    DigitsOf x ds ['0'] := by
  refine ⟨h.ne_nil, h.whole_digits, by simp, ?_⟩
  have hvalue := h.value_eq
  have hzeros : digitsValue (ds ++ ['0']) = digitsValue ds * 10 ^ 1 :=
    Decimal.digitsValue_append_zeros ds 1
  rw [List.append_nil] at hvalue
  rw [← hvalue, hzeros, Decimal.value, Decimal.value]
  push_cast
  simp

namespace Decimal

/-- A number without fraction has its zeros at the end. -/
theorem digitsOf_append_zeros {d : Decimal} (h : 0 ≤ d.exponent) :
    DigitsOf d.value (d.digitChars ++ zeros d.exponent.toNat) [] := by
  have hne : d.digitChars ≠ [] := Nat.toDigits_ne_nil
  refine ⟨by simp [hne], ?_, by simp, ?_⟩
  · intro c hc
    rcases List.mem_append.mp hc with hc | hc
    · exact d.isDigit_digitChars c hc
    · exact isDigit_zeros _ c hc
  · obtain ⟨n, hn⟩ := Int.eq_ofNat_of_zero_le h
    rw [List.append_nil, digitsValue_append_zeros, digitsValue_digitChars, value, value, hn]
    simp

section
variable {d : Decimal} {places : ℕ} (hplaces : d.exponent = -(places : ℤ))
include hplaces

/-- The point stands between two digits. -/
theorem digitsOf_take_drop (hlt : places < d.digitChars.length) :
    DigitsOf d.value (d.digitChars.take (d.digitChars.length - places))
      (d.digitChars.drop (d.digitChars.length - places)) := by
  have hlength : (d.digitChars.drop (d.digitChars.length - places)).length = places := by
    rw [List.length_drop]
    omega
  refine ⟨?_, ?_, ?_, ?_⟩
  · intro hnil
    have hnone := congrArg List.length hnil
    rw [List.length_take, List.length_nil] at hnone
    omega
  · exact fun c hc => d.isDigit_digitChars c (List.mem_of_mem_take hc)
  · exact fun c hc => d.isDigit_digitChars c (List.mem_of_mem_drop hc)
  · rw [List.take_append_drop, hlength, digitsValue_digitChars, ← hplaces]

/-- The digits stand behind the point. -/
theorem digitsOf_zeros_append (hle : d.digitChars.length ≤ places) :
    DigitsOf d.value ['0'] (zeros (places - d.digitChars.length) ++ d.digitChars) := by
  have hlength : (zeros (places - d.digitChars.length) ++ d.digitChars).length = places := by
    rw [List.length_append, zeros, List.length_replicate]
    omega
  have hdigits : digitsValue (['0'] ++ (zeros (places - d.digitChars.length) ++ d.digitChars)) =
      d.digits := by
    rw [← List.append_assoc]
    show digitsValue (zeros (places - d.digitChars.length + 1) ++ d.digitChars) = d.digits
    rw [digitsValue_zeros_append, digitsValue_digitChars]
  refine ⟨by simp, by simp, ?_, ?_⟩
  · intro c hc
    rcases List.mem_append.mp hc with hc | hc
    · exact isDigit_zeros _ c hc
    · exact d.isDigit_digitChars c hc
  · rw [hdigits, hlength, ← hplaces]

end

/-- **The digits that are written are those of the number.** -/
theorem digitsOf_parts (d : Decimal) : DigitsOf d.value d.parts.1 d.parts.2 := by
  unfold parts
  by_cases hexponent : 0 ≤ d.exponent
  · rw [if_pos hexponent]
    exact digitsOf_append_zeros hexponent
  · have hplaces : d.exponent = -((-d.exponent).toNat : ℤ) := by omega
    rw [if_neg hexponent]
    dsimp only
    split
    · next hlt => exact digitsOf_take_drop hplaces hlt
    · next hle => exact digitsOf_zeros_append hplaces (Nat.not_lt.mp hle)

/-- A number without fraction has no digits after the point. -/
theorem parts_of_nonneg {d : Decimal} (h : 0 ≤ d.exponent) : d.parts.2 = [] := by
  rw [parts, if_pos h]

/-- A number without fraction is written as digits. -/
theorem digitsOf_positional_whole {d : Decimal} (h : 0 ≤ d.exponent) :
    DigitsOf d.value (d.positional false) [] := by
  have hdigits := d.digitsOf_parts
  rw [parts_of_nonneg h] at hdigits
  have hpositional : d.positional false = d.parts.1 := by
    simp [positional, parts, h]
  rwa [hpositional]

/-- A number that keeps its point is written as digits, a point and digits. -/
theorem digitsOf_positional_real (d : Decimal) :
    ∃ ds es, d.positional true = ds ++ '.' :: es ∧ DigitsOf d.value ds es := by
  have hdigits := d.digitsOf_parts
  unfold positional
  split
  · next whole heq =>
    rw [heq] at hdigits
    exact ⟨whole, ['0'], rfl, hdigits.append_zero⟩
  · next whole part _ heq =>
    rw [heq] at hdigits
    exact ⟨whole, part, rfl, hdigits⟩

end Decimal

/-! ### Numerals -/

namespace Numeral

/-- Digits alone write a whole number. -/
theorem decimal?_whole {ds : List Char} (hne : ds ≠ []) (hds : ∀ c ∈ ds, c.isDigit = true) :
    decimal? ds = some ⟨digitsValue ds, 0⟩ := by
  have htake := takeWhile_append_eq (u := []) hds (by simp)
  have hdrop := dropWhile_append_eq (u := []) hds (by simp)
  rw [List.append_nil] at htake hdrop
  simp [decimal?, htake, hdrop, fractionDigits, hne, exponent?]

/-- The digits after a point are those of a fraction. -/
theorem decimal?_real {ds es : List Char} (hne : ds ≠ []) (hds : ∀ c ∈ ds, c.isDigit = true)
    (hes : ∀ c ∈ es, c.isDigit = true) :
    decimal? (ds ++ '.' :: es) = some ⟨digitsValue (ds ++ es), -(es.length : ℤ)⟩ := by
  have hpoint : ∀ c ∈ ('.' :: es).head?, c.isDigit = false := by
    intro c hc
    obtain rfl : '.' = c := by simpa using hc
    rfl
  have htake := takeWhile_append_eq hds hpoint
  have hdrop := dropWhile_append_eq hds hpoint
  have htake' := takeWhile_append_eq (u := []) hes (by simp)
  have hdrop' := dropWhile_append_eq (u := []) hes (by simp)
  rw [List.append_nil] at htake' hdrop'
  simp [decimal?, htake, hdrop, fractionDigits, htake', hdrop', hne, exponent?]

/-- A digit is no letter, so it has no lower case of its own. -/
theorem toLower_of_isDigit {c : Char} (h : c.isDigit = true) : c.toLower = c := by
  have hdigit : (decide (c.val ≥ '0'.val) && decide (c.val ≤ '9'.val)) = true := h
  have hupper : ¬ (c.val ≥ 'A'.val ∧ c.val ≤ 'Z'.val) := by grind
  unfold Char.toLower
  grind

/-- A text that starts with a digit is no word and has no sign. -/
theorem read_of_digit {cs : List Char} (hhead : ∃ c ∈ cs.head?, c.isDigit = true) {d : Decimal}
    (h : decimal? cs = some d) : Numeral.read (String.ofList cs) = .ok (Rank.toFloat d.rank) := by
  obtain ⟨c, hc, hdigit⟩ := hhead
  cases cs with
  | nil => cases hc
  | cons b cs =>
    obtain rfl : b = c := by simpa using hc
    have hletter : ∀ a, a.isDigit = false → b ≠ a := by
      rintro a ha rfl
      rw [hdigit] at ha
      cases ha
    have hsigned : signed? (b :: cs) = unsigned? (b :: cs) := by
      unfold signed?
      split
      · next heq => exact absurd (List.cons.inj heq).1 (hletter '-' rfl)
      · next heq => exact absurd (List.cons.inj heq).1 (hletter '+' rfl)
      · rfl
    have hunsigned : unsigned? (b :: cs) = some (Rank.toFloat d.rank) := by
      have hword : ∀ a as, a.isDigit = false → (b :: cs).map Char.toLower ≠ a :: as := by
        intro a as ha heq
        rw [List.map_cons, toLower_of_isDigit hdigit] at heq
        exact hletter a ha (List.cons.inj heq).1
      have hinf : (b :: cs).map Char.toLower ≠ "inf".toList := hword 'i' _ rfl
      have hinfinity : (b :: cs).map Char.toLower ≠ "infinity".toList := hword 'i' _ rfl
      have hnan : (b :: cs).map Char.toLower ≠ "nan".toList := hword 'n' _ rfl
      unfold unsigned?
      dsimp only
      rw [if_neg (not_or.mpr ⟨hinf, hinfinity⟩), if_neg hnan, h, Option.map_some]
    rw [Numeral.read, String.toList_ofList]
    simp only [hsigned, hunsigned]

end Numeral

namespace DigitsOf

theorem isLexeme_whole {x : ℚ} {ds : List Char} (h : DigitsOf x ds []) :
    IsLexeme ds .literalInt := .whole h.ne_nil h.whole_digits

theorem isLexeme_real {x : ℚ} {ds es : List Char} (h : DigitsOf x ds es) :
    IsLexeme (ds ++ '.' :: es) .literalReal := .real h.ne_nil h.whole_digits h.part_digits

theorem head_isDigit {x : ℚ} {ds es : List Char} (h : DigitsOf x ds es) (u : List Char) :
    ∃ c ∈ (ds ++ u).head?, c.isDigit = true := by
  cases ds with
  | nil => exact absurd rfl h.ne_nil
  | cons c ds => exact ⟨c, rfl, h.whole_digits c List.mem_cons_self⟩

/-- Digits alone are read as the whole number that they write. -/
theorem read_whole {x : ℚ} {ds : List Char} (h : DigitsOf x ds []) :
    ∃ n : ℕ, (⟨n, 0⟩ : Decimal).value = x ∧
      Numeral.read (String.ofList ds) = .ok (Rank.toFloat (Decimal.rank ⟨n, 0⟩)) := by
  have hdecimal := decimal?_whole h.ne_nil h.whole_digits
  have hvalue := h.value_eq
  have hhead := h.head_isDigit []
  rw [List.append_nil] at hvalue hhead
  exact ⟨digitsValue ds, hvalue, read_of_digit hhead hdecimal⟩

/-- Digits with a point are read as the number that they write. -/
theorem read_real {x : ℚ} {ds es : List Char} (h : DigitsOf x ds es) :
    ∃ d : Decimal, d.value = x ∧
      Numeral.read (String.ofList (ds ++ '.' :: es)) = .ok (Rank.toFloat d.rank) := by
  have hdecimal := decimal?_real h.ne_nil h.whole_digits h.part_digits
  exact ⟨_, h.value_eq, read_of_digit (h.head_isDigit _) hdecimal⟩

end DigitsOf

/-! ### The values of numerals -/

/-- The double nearest to a whole number is a whole number. -/
theorem Decimal.isWhole_rank (n : ℕ) : Rank.IsWhole (Decimal.rank ⟨n, 0⟩) := by
  have hfraction : (⟨n, 0⟩ : Decimal).fraction = (n, 1) := by simp [Decimal.fraction]
  unfold Decimal.rank
  by_cases hn : n = 0
  · rw [if_pos hn]
    exact Nat.dvd_zero Rank.perOne
  · have hlow : ¬ (0 : ℤ) + (n.log2 + 1) ≤ -400 := by omega
    have hhigh : ¬ (400 : ℤ) ≤ 0 := by decide
    rw [if_neg hn, if_neg hhigh, if_neg hlow, hfraction]
    exact Rank.isWhole_nearest n

namespace IsLexeme

/-- A whole numeral is read as a double that is a whole number. -/
theorem read_whole {cs : List Char} (h : IsLexeme cs .literalInt) :
    ∃ k ≤ Rank.top, Rank.IsWhole k ∧ Numeral.read (String.ofList cs) = .ok (Rank.toFloat k) := by
  cases h with
  | sign h => cases h
  | whole hne hds =>
    have hdigits : DigitsOf _ cs [] := ⟨hne, hds, by simp, rfl⟩
    obtain ⟨n, -, hread⟩ := hdigits.read_whole
    exact ⟨_, Decimal.rank_le_top _, Decimal.isWhole_rank n, hread⟩
  | keyword h => cases h

/-- A real numeral is read as a double without sign. -/
theorem read_real {cs : List Char} (h : IsLexeme cs .literalReal) :
    ∃ k ≤ Rank.top, Numeral.read (String.ofList cs) = .ok (Rank.toFloat k) := by
  cases h with
  | sign h => cases h
  | @real ds es hne hds hes =>
    have hdigits : DigitsOf _ ds es := ⟨hne, hds, hes, rfl⟩
    obtain ⟨d, -, hread⟩ := hdigits.read_real
    exact ⟨d.rank, d.rank_le_top, hread⟩
  | keyword h => cases h

end IsLexeme

/-! ### Writing a double by position and reading it back -/

namespace Rank

/-- The decimal number that is written for a rank. -/
def written (k : ℕ) : Decimal := if k = 0 then ⟨0, 0⟩ else shortest k

/-- **A number of the value that is written is read as the rank.** -/
theorem rank_of_value_written {k : ℕ} (hk : k < top) {d : Decimal}
    (h : d.value = (written k).value) : d.rank = k := by
  by_cases hzero : k = 0
  · have hdigits : d.digits = 0 := by
      have hpow : (10 : ℚ) ^ d.exponent ≠ 0 := by positivity
      rw [written, if_pos hzero, Decimal.value, Decimal.value, Nat.cast_zero, zero_mul] at h
      exact_mod_cast (mul_eq_zero.mp h).resolve_right hpow
    rw [Decimal.rank, if_pos hdigits, hzero]
  · rw [written, if_neg hzero] at h
    refine Decimal.rank_eq_of_roundsTo ⟨Nat.pos_of_ne_zero hzero, hk⟩ ?_
    rw [Decimal.roundsTo_of_value_eq h]
    exact roundsTo_shortest k

theorem exponent_written {k : ℕ} (hwhole : IsWhole k) : 0 ≤ (written k).exponent := by
  unfold written
  split
  · exact Int.le_refl 0
  · next hzero => exact exponent_shortest (Nat.pos_of_ne_zero hzero) hwhole

/-- **A finite double written with a point is a real numeral of the same value.** -/
theorem reads_written_real {k : ℕ} (hk : k < top) :
    IsLexeme ((written k).positional true) .literalReal ∧
      Numeral.read (String.ofList ((written k).positional true)) = .ok (toFloat k) := by
  obtain ⟨ds, es, hchars, hdigits⟩ := (written k).digitsOf_positional_real
  obtain ⟨d, hvalue, hread⟩ := hdigits.read_real
  rw [hchars, hread, rank_of_value_written hk hvalue]
  exact ⟨hdigits.isLexeme_real, rfl⟩

/-- **A finite double that is a whole number, written without a point, is a whole
numeral of the same value.** -/
theorem reads_written_whole {k : ℕ} (hk : k < top) (hwhole : IsWhole k) :
    IsLexeme ((written k).positional false) .literalInt ∧
      Numeral.read (String.ofList ((written k).positional false)) = .ok (toFloat k) := by
  have hdigits := Decimal.digitsOf_positional_whole (exponent_written hwhole)
  obtain ⟨n, hvalue, hread⟩ := hdigits.read_whole
  rw [hread, rank_of_value_written hk hvalue]
  exact ⟨hdigits.isLexeme_whole, rfl⟩

end Rank

end AssignLang
