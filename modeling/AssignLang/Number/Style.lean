/-
# Writing numbers

A double is written with the fewest digits that read back. A `Style` says the
rest: whether a whole number shows a fraction `.0`, and which magnitudes are
written by position and which with a power of ten. `Style.plain` writes every
number by position and is used for values, labels and whole literals;
`Style.pointed` is used for real literals, which it keeps apart from whole
ones.

Key definitions: `Style.write`, `Style.plain`, `Style.pointed`,
`Decimal.positional`, `Decimal.scientific`.
-/
import AssignLang.Number.Shortest

namespace AssignLang
namespace Decimal

/-- The characters of the digits. -/
def digitChars (d : Decimal) : List Char := Nat.toDigits 10 d.digits

/-- A run of zeros. -/
def zeros (n : Nat) : List Char := List.replicate n '0'

/-- The whole part and the fraction of the number, each as digits. -/
def parts (d : Decimal) : List Char × List Char :=
  let ds := d.digitChars
  if 0 ≤ d.exponent then (ds ++ zeros d.exponent.toNat, [])
  else
    let places := (-d.exponent).toNat
    if places < ds.length then (ds.take (ds.length - places), ds.drop (ds.length - places))
    else (['0'], zeros (places - ds.length) ++ ds)

/-- The number by position: the fraction follows a point. A number without
fraction has no point, or the fraction `0` if `keepPoint` says so. -/
def positional (keepPoint : Bool) (d : Decimal) : List Char :=
  match d.parts with
  | (whole, []) => if keepPoint then whole ++ ['.', '0'] else whole
  | (whole, part) => whole ++ '.' :: part

/-- The characters of a whole number with its sign. -/
def intChars (i : Int) : List Char :=
  if i < 0 then '-' :: Nat.toDigits 10 i.natAbs else Nat.toDigits 10 i.natAbs

/-- The number as one digit, the others after a point, and a power of ten. -/
def scientific (d : Decimal) : List Char :=
  let ds := d.digitChars
  let power := intChars (d.exponent + ds.length - 1)
  match ds with
  | first :: [] => first :: 'e' :: power
  | first :: rest => first :: '.' :: (rest ++ 'e' :: power)
  | [] => power

end Decimal

/-- What is left open when the digits of a number are known. -/
structure Style where
  /-- Whether a number without fraction shows the fraction `0`. -/
  keepPoint : Bool
  /-- The magnitudes that are written by position; the others are written with a
  power of ten. -/
  byPosition : Float → Bool

namespace Style

/-- Every number by position, and a whole number without a point. -/
def plain : Style := ⟨false, fun _ => true⟩

/-- Zero and the numbers from 1e-4 up to, but not including, 1e16 by position and
with a point. -/
def pointed : Style := ⟨true, fun x => (x == 0 || decide (1e-4 ≤ x)) && decide (x < 1e16)⟩

/-- The characters of the finite double of rank `k`. -/
def writeRank (style : Style) (k : Nat) : List Char :=
  if k = 0 then Decimal.positional style.keepPoint ⟨0, 0⟩
  else if style.byPosition (Rank.toFloat k) then (Rank.shortest k).positional style.keepPoint
  else (Rank.shortest k).scientific

/-- The characters of a double. A NaN has no sign, zero has one. -/
def writeChars (style : Style) (x : Float) : List Char :=
  if x.isNaN then "NaN".toList
  else
    let k := Rank.ofFloat x
    let magnitude := if k = Rank.top then "inf".toList else style.writeRank k
    if x.toBits.toNat < Nat.pow 2 63 then magnitude else '-' :: magnitude

/-- The text of a double. -/
def write (style : Style) (x : Float) : String := String.ofList (style.writeChars x)

end Style
end AssignLang
