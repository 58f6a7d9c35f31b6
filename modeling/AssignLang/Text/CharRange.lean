/-
# Sets of characters given by ranges

A `CharRange` is a closed interval of code points; a set of characters is a
list of them, in increasing order. The tables of the modules beside this one
are such lists, taken from the Unicode Character Database, version 17.

Key definitions: `CharRange.Contains`, `CharRange.covers`.
Key theorems: `CharRange.covers_eq_true_iff`.
-/
namespace AssignLang

/-- The code points from the first number up to and including the second. -/
abbrev CharRange := Nat × Nat

namespace CharRange

/-- The range holds the character. -/
def Contains (r : CharRange) (c : Char) : Prop := r.1 ≤ c.toNat ∧ c.toNat ≤ r.2

instance (r : CharRange) (c : Char) : Decidable (r.Contains c) :=
  inferInstanceAs (Decidable (_ ∧ _))

/-- Whether one of the ranges holds the character. -/
def covers (rs : List CharRange) (c : Char) : Bool := rs.any fun r => decide (r.Contains c)

theorem covers_eq_true_iff {rs : List CharRange} {c : Char} :
    covers rs c = true ↔ ∃ r ∈ rs, CharRange.Contains r c := by
  simp [covers, List.any_eq_true]

end CharRange

end AssignLang
