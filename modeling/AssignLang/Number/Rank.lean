/-
# The doubles in order

The nonnegative doubles are numbered in increasing order: zero has rank 0, the
smallest subnormal rank 1, infinity rank `Rank.top`. The rank is also the bit
pattern of the double. A finite double is a whole number of steps of 2^-1074,
the steps of its rank; the border between two neighbours lies halfway, so it
is a whole number of steps of 2^-1075. A nonnegative fraction rounds to the
rank between whose two borders it lies, and from a border to the even rank of
the two. Counting infinity as 2^1024, the same rule says what overflows.

Key definitions: `Rank.steps`, `Rank.border`, `Rank.reaches`, `Rank.roundsTo`,
`Rank.nearest`.
-/
import AssignLang.Number.Greatest

namespace AssignLang
namespace Rank

/-- How many ranks there are between one power of two and the next. -/
def binade : Nat := Nat.pow 2 52

/-- The rank of infinity. -/
def top : Nat := 2047 * binade

/-- The double of rank `k` as a multiple of 2^-1074. Up to 2^53 a step is one
rank; after that the steps between neighbours double every 2^52 ranks. -/
def steps (k : Nat) : Nat :=
  if k < binade then k else (binade + k % binade) * Nat.pow 2 (k / binade - 1)

/-- The midpoint of the doubles of rank `k` and `k + 1`, as a multiple of
2^-1075. -/
def border (k : Nat) : Nat := steps k + steps (k + 1)

/-- Whether `num / den` lies on the upper side of the border below rank `k`, so
that it rounds to that rank or a higher one. -/
def reaches (num den : Nat) : Nat → Bool
  | 0 => true
  | k + 1 =>
    let distance := num * Nat.pow 2 1075
    let bound := den * border k
    decide (bound < distance) || (bound == distance && (k + 1) % 2 == 0)

/-- Whether `num / den` rounds to rank `k`. -/
def roundsTo (num den k : Nat) : Bool :=
  reaches num den k && (k == top || !reaches num den (k + 1))

/-- The rank that `num / den` rounds to. -/
def nearest (num den : Nat) : Nat :=
  greatest (fun k => decide (k ≤ top) && reaches num den k) 63

/-- The double of a rank. -/
def toFloat (k : Nat) : Float := Float.ofBits k.toUInt64

/-- The rank of a double without its sign. -/
def ofFloat (x : Float) : Nat := x.toBits.toNat % Nat.pow 2 63

end Rank
end AssignLang
