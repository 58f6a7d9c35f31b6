/-
# The fewest digits that read back

`Rank.shortest` gives a positive finite double the decimal number that rounds
to it and has the fewest digits; of several, the one closest to the double,
and of two as close, the greater. Every double is a whole number of steps of
10^-1074, so on the grid of a given number of digits its two neighbours are a
quotient and the next number, and they are tried exactly, the closer first.

Key definitions: `Rank.decimalSteps`, `Rank.onGrid?`, `Rank.shortest`.
-/
import AssignLang.Number.Decimal

namespace AssignLang
namespace Rank

/-- The double of rank `k` as a multiple of 10^-1074. -/
def decimalSteps (k : Nat) : Nat := steps k * Nat.pow 5 1074

/-- How many digits `n` has; at most 2^11. -/
def digitCount (n : Nat) : Nat := greatest (fun j => decide (Nat.pow 10 j ≤ n)) 11 + 1

/-- The two numbers on either side of `n` on the grid of step `unit`, counted
in units, the closer first and on a tie the greater. -/
def neighbours (n unit : Nat) : List Nat :=
  let low := n / unit
  if (2 * low + 1) * unit ≤ 2 * n then [low + 1, low] else [low, low + 1]

/-- The decimal number with `count` digits that is closest to the double of
rank `k` among the two around it that round to it. -/
def onGrid? (k count : Nat) : Option Decimal :=
  let place := digitCount (decimalSteps k) - count
  let hit := (neighbours (decimalSteps k) (Nat.pow 10 place)).find? fun c =>
    roundsTo (c * Nat.pow 10 place) (Nat.pow 10 1074) k
  hit.map fun c => ⟨c, (place : Int) - 1074⟩

/-- The decimal number with the fewest digits that rounds to rank `k`. Seventeen
digits are always enough; all digits of the double would follow them. -/
def shortest (k : Nat) : Decimal :=
  (((List.range' 1 17).findSome? (onGrid? k)).getD ⟨decimalSteps k, -1074⟩).trim

end Rank
end AssignLang
