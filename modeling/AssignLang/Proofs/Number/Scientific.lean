/-
# What is written with a power of ten is read back

A number written with a power of ten is its first digit, the others behind a point if
there are any, and the power behind an `e`. Read back, these are the digits and the
exponent of the same decimal number. So a finite double written in the pointed style
is read back whether it is written by position or not, and its text shows that it is
no whole numeral: it has a character that is no digit.

Key definitions: `ShowsReal`.
Key theorems: `Numeral.decimal?_scientific`, `Rank.reads_pointed_finite`.
-/
import AssignLang.Proofs.Number.Bits

namespace AssignLang

open Numeral

/-! ### The power of ten -/

namespace Numeral

theorem digits?_toDigits (n : ℕ) : digits? (Nat.toDigits 10 n) = some n := by
  have hall : (Nat.toDigits 10 n).all Char.isDigit = true :=
    List.all_eq_true.mpr (Decimal.isDigit_toDigits n)
  rw [digits?, if_pos ⟨Nat.toDigits_ne_nil, hall⟩, digitsValue, Nat.ofDigitChars_ten_toDigits]

/-- Digits are no sign and digits. -/
theorem toDigits_ne_cons {n : ℕ} {c : Char} (hc : c.isDigit = false) (ds : List Char) :
    Nat.toDigits 10 n ≠ c :: ds := by
  intro h
  have hdigit := Decimal.isDigit_toDigits n c (h ▸ List.mem_cons_self)
  rw [hc] at hdigit
  cases hdigit

/-- A whole number behind an `e` is read back. -/
theorem exponent?_intChars (i : ℤ) : exponent? ('e' :: Decimal.intChars i) = some i := by
  by_cases hi : i < 0
  · have hnegated : -|i| = i := by rw [abs_of_neg hi, neg_neg]
    simp [Decimal.intChars, hi, exponent?, digits?_toDigits, hnegated]
  · have habs : (i.natAbs : ℤ) = i := by omega
    rw [Decimal.intChars, if_neg hi, exponent?, if_pos (.inl rfl), digits?_toDigits]
    · exact congrArg some habs
    · exact fun ds h => toDigits_ne_cons rfl ds h
    · exact fun ds h => toDigits_ne_cons rfl ds h

/-- A digit, and what follows it if it is no digit. -/
theorem decimal?_cons {c : Char} {u part rest : List Char} (hc : c.isDigit = true)
    (hu : ∀ t ∈ u.head?, t.isDigit = false) (hfraction : fractionDigits u = (part, rest)) :
    decimal? (c :: u) = (exponent? rest).map fun e =>
      ⟨digitsValue (c :: part), e - part.length⟩ := by
  have htake := takeWhile_append_eq (a := [c]) (by simpa using hc) hu
  have hdrop := dropWhile_append_eq (a := [c]) (by simpa using hc) hu
  rw [List.singleton_append] at htake hdrop
  simp [decimal?, htake, hdrop, hfraction]

/-- **A number written with a power of ten is read back.** -/
theorem decimal?_scientific (d : Decimal) : decimal? d.scientific = some d := by
  have hdigits := d.isDigit_digitChars
  have hvalue := d.digitsValue_digitChars
  have hne : d.digitChars ≠ [] := Nat.toDigits_ne_nil
  unfold Decimal.scientific
  dsimp only
  generalize d.digitChars = ds at hdigits hvalue hne ⊢
  cases ds with
  | nil => exact absurd rfl hne
  | cons c ds =>
    obtain ⟨hc, hds⟩ := List.forall_mem_cons.mp hdigits
    cases ds with
    | nil =>
      have hfraction : fractionDigits ('e' :: Decimal.intChars (d.exponent + [c].length - 1)) =
          ([], 'e' :: Decimal.intChars (d.exponent + [c].length - 1)) := rfl
      rw [decimal?_cons hc (by simp) hfraction, exponent?_intChars, hvalue]
      simp
    | cons c' ds =>
      have hfraction : fractionDigits ('.' :: (c' :: ds ++ 'e' ::
          Decimal.intChars (d.exponent + (c :: c' :: ds).length - 1))) =
          (c' :: ds, 'e' :: Decimal.intChars (d.exponent + (c :: c' :: ds).length - 1)) :=
        Prod.ext (takeWhile_append_eq hds (by simp)) (dropWhile_append_eq hds (by simp))
      rw [decimal?_cons hc (by simp) hfraction, exponent?_intChars, hvalue, Option.map_some]
      congr 2
      simp
      omega

end Numeral

/-! ### The form of a real numeral that is written -/

/-- The text is digits, points, minus signs and letters `e`, a digit first, and not
only digits. -/
structure ShowsReal (x : List Char) : Prop where
  head : ∃ c ∈ x.head?, c.isDigit = true
  chars : ∀ c ∈ x, c.isDigit = true ∨ c ∈ ['.', 'e', '-']
  notWhole : ∃ c ∈ x, c.isDigit = false

theorem Decimal.mem_intChars {i : ℤ} {c : Char} (hc : c ∈ intChars i) :
    c.isDigit = true ∨ c ∈ ['.', 'e', '-'] := by
  unfold intChars at hc
  split at hc
  · rcases List.mem_cons.mp hc with rfl | hc
    · exact .inr (by decide)
    · exact .inl (isDigit_toDigits _ c hc)
  · exact .inl (isDigit_toDigits _ c hc)

theorem Decimal.showsReal_scientific (d : Decimal) : ShowsReal d.scientific := by
  have hdigits := d.isDigit_digitChars
  have hne : d.digitChars ≠ [] := Nat.toDigits_ne_nil
  unfold scientific
  dsimp only
  generalize d.digitChars = ds at hdigits hne ⊢
  have hpower : ∀ i : ℤ, ∀ c ∈ 'e' :: intChars i, c.isDigit = true ∨ c ∈ ['.', 'e', '-'] :=
    fun i => List.forall_mem_cons.mpr ⟨.inr (by decide), fun c hc => mem_intChars hc⟩
  cases ds with
  | nil => exact absurd rfl hne
  | cons c ds =>
    obtain ⟨hc, hds⟩ := List.forall_mem_cons.mp hdigits
    cases ds with
    | nil =>
      exact ⟨⟨c, rfl, hc⟩, List.forall_mem_cons.mpr ⟨.inl hc, hpower _⟩, ⟨'e', by simp, rfl⟩⟩
    | cons c' ds =>
      refine ⟨⟨c, rfl, hc⟩, List.forall_mem_cons.mpr ⟨.inl hc, List.forall_mem_cons.mpr
        ⟨.inr (by decide), List.forall_mem_append.mpr ⟨fun t ht => .inl (hds t ht), hpower _⟩⟩⟩,
        ⟨'.', by simp, rfl⟩⟩

theorem DigitsOf.showsReal {x : ℚ} {ds es : List Char} (h : DigitsOf x ds es) :
    ShowsReal (ds ++ '.' :: es) :=
  ⟨h.head_isDigit _, List.forall_mem_append.mpr ⟨fun c hc => .inl (h.whole_digits c hc),
    List.forall_mem_cons.mpr ⟨.inr (by decide), fun c hc => .inl (h.part_digits c hc)⟩⟩,
    ⟨'.', by simp, rfl⟩⟩

/-! ### Doubles -/

/-- A number that is not infinite is finite. -/
theorem isFinite_of_isInf {x : Float} (hnumber : x.isNaN = false) (h : x.isInf = false) :
    x.isFinite = true := by
  have hunpacked : ∀ u : Float.Model.UnpackedFloat, u.isNaN = false → u.isInf = false →
      u.isFinite = true := by
    intro u hnumber h
    cases u with
    | notANumber => cases hnumber
    | infinity sign => cases h
    | zero sign => rfl
    | finite sign mantissa exponent hpos => rfl
  exact hunpacked x.toModel.unpack hnumber h

namespace Rank

/-- Infinity has the greatest rank. -/
theorem lt_top_of_isInf {k : ℕ} (hk : k ≤ top) (h : (toFloat k).isInf = false) : k < top := by
  refine Nat.lt_of_le_of_ne hk ?_
  rintro rfl
  have hinfinite : (toFloat top).isInf = true := by decide
  rw [hinfinite] at h
  cases h

/-- **A finite double without sign in the pointed style is read back**, and it does not
look like a whole numeral. -/
theorem reads_pointed_finite {k : ℕ} (hk : k < top) :
    ShowsReal (Style.pointed.write (toFloat k)).toList ∧
      Numeral.read (Style.pointed.write (toFloat k)) = .ok (toFloat k) := by
  by_cases hposition : k = 0 ∨ Style.pointed.byPosition (toFloat k) = true
  · obtain ⟨ds, es, hchars, hdigits⟩ := (written k).digitsOf_positional_real
    rw [write_byPosition hk .pointed hposition, String.toList_ofList]
    refine ⟨?_, (reads_written_real hk).2⟩
    show ShowsReal ((written k).positional true)
    rw [hchars]
    exact hdigits.showsReal
  · obtain ⟨hzero, hpower⟩ := not_or.mp hposition
    have hshows := (shortest k).showsReal_scientific
    have hrank : (shortest k).rank = k :=
      rank_of_value_written hk (by rw [written, if_neg hzero])
    rw [write_toFloat hk, Style.writeRank, if_neg hzero, if_neg hpower, String.toList_ofList,
      Numeral.read_of_digit hshows.head (Numeral.decimal?_scientific _), hrank]
    exact ⟨hshows, rfl⟩

end Rank

end AssignLang
