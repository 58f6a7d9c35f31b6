/-
# Decimal numbers and the doubles nearest to them

A `Decimal` is a whole number times a power of ten. `Decimal.rank` is the rank
of the double nearest to it. Powers of ten far outside the range of doubles
are answered without being formed, so an exponent of any length costs little.

Key definitions: `Decimal.rank`, `Decimal.trim`.
-/
import AssignLang.Number.Rank

namespace AssignLang

/-- The number `digits` times ten to the `exponent`. -/
structure Decimal where
  digits : Nat
  exponent : Int
  deriving DecidableEq, Repr

namespace Decimal

/-- The numerator and the denominator of the number as a fraction. -/
def fraction (d : Decimal) : Nat × Nat :=
  (d.digits * Nat.pow 10 d.exponent.toNat, Nat.pow 10 (-d.exponent).toNat)

/-- The rank of the double nearest to the number. From ten to the 400 on all is
infinity, and up to ten to the -400 all is zero. -/
def rank (d : Decimal) : Nat :=
  if d.digits = 0 then 0
  else if 400 ≤ d.exponent then Rank.top
  else if d.exponent + (d.digits.log2 + 1) ≤ -400 then 0
  else Rank.nearest d.fraction.1 d.fraction.2

/-- How many zeros `n` ends with; for `n = 0` it is 2047. -/
def trailingZeros (n : Nat) : Nat := greatest (fun t => n % Nat.pow 10 t == 0) 11

/-- The same number without zeros at the end of its digits. -/
def trim (d : Decimal) : Decimal :=
  let t := trailingZeros d.digits
  ⟨d.digits / Nat.pow 10 t, d.exponent + t⟩

end Decimal
end AssignLang
