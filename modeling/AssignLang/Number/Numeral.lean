/-
# Reading numerals

A numeral is an optional sign and then either one of the words `inf`,
`infinity` and `nan` in any letter case, or decimal digits with an optional
point, at least one of them on either side of it, and an optional exponent: an
`e` of either case, an optional sign, at least one digit. Its value is the
double nearest to the number it writes.

Key definitions: `Numeral.read`, `Numeral.decimal?`, `NumeralError.message`.
-/
import AssignLang.Number.Decimal

namespace AssignLang

/-- Why a text is no numeral. -/
inductive NumeralError
  | empty
  | malformed
  deriving DecidableEq, Repr

/-- What a reader is told. -/
def NumeralError.message : NumeralError → String
  | empty => "cannot parse float from empty string"
  | malformed => "invalid float literal"

namespace Numeral

/-- The number that decimal digits write. -/
def digitsValue (ds : List Char) : Nat := Nat.ofDigitChars 10 ds 0

/-- One or more decimal digits and nothing else. -/
def digits? (cs : List Char) : Option Nat :=
  if cs ≠ [] ∧ cs.all Char.isDigit then some (digitsValue cs) else none

/-- What may follow the digits: nothing, which is exponent 0, or a whole
exponent. -/
def exponent? : List Char → Option Int
  | [] => some 0
  | e :: cs =>
    if e = 'e' ∨ e = 'E' then
      match cs with
      | '-' :: ds => (digits? ds).map fun n => -(n : Int)
      | '+' :: ds => (digits? ds).map fun n => (n : Int)
      | ds => (digits? ds).map fun n => (n : Int)
    else none

/-- The digits after a point, if there is a point, and what follows. -/
def fractionDigits : List Char → List Char × List Char
  | '.' :: cs => (cs.takeWhile Char.isDigit, cs.dropWhile Char.isDigit)
  | cs => ([], cs)

/-- The number that digits, a point and an exponent write. -/
def decimal? (cs : List Char) : Option Decimal :=
  let whole := cs.takeWhile Char.isDigit
  let (part, rest) := fractionDigits (cs.dropWhile Char.isDigit)
  if whole = [] ∧ part = [] then none
  else (exponent? rest).map fun e => ⟨digitsValue (whole ++ part), e - part.length⟩

/-- The value of a numeral without sign. -/
def unsigned? (cs : List Char) : Option Float :=
  let word := cs.map Char.toLower
  if word = "inf".toList ∨ word = "infinity".toList then some (Rank.toFloat Rank.top)
  else if word = "nan".toList then some (0.0 / 0.0)
  else (decimal? cs).map fun d => Rank.toFloat d.rank

/-- The value of a numeral with or without sign. -/
def signed? : List Char → Option Float
  | '-' :: cs => (unsigned? cs).map fun x => -x
  | '+' :: cs => unsigned? cs
  | cs => unsigned? cs

/-- The double that a text writes. -/
def read (text : String) : Except NumeralError Float :=
  match text.toList with
  | [] => .error .empty
  | cs =>
    match signed? cs with
    | some x => .ok x
    | none => .error .malformed

end Numeral
end AssignLang
