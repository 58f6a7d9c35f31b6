/-
# The five binary operators

An operator is written as one symbol; a token's operator is read from the
token's text by `BinaryOp.ofSymbol?`.

Key definitions: `BinaryOp.symbol`, `BinaryOp.ofSymbol?`.
Key theorems: `BinaryOp.ofSymbol?_eq_some_iff`.
-/
namespace AssignLang

/-- The operations on two numbers. -/
inductive BinaryOp
  | add
  | subtract
  | multiply
  | divide
  | power
  deriving DecidableEq, Repr

namespace BinaryOp

/-- The character an operator is written as. -/
def symbol : BinaryOp → Char
  | add => '+'
  | subtract => '-'
  | multiply => '*'
  | divide => '/'
  | power => '^'

/-- The operator that a text is the symbol of. -/
def ofSymbol? (text : String) : Option BinaryOp :=
  match text.toList with
  | ['+'] => some add
  | ['-'] => some subtract
  | ['*'] => some multiply
  | ['/'] => some divide
  | ['^'] => some power
  | _ => none

theorem ofSymbol?_eq_some_iff {text : String} {op : BinaryOp} :
    ofSymbol? text = some op ↔ text.toList = [op.symbol] := by
  constructor
  · intro h
    unfold ofSymbol? at h
    split at h <;> cases h <;> assumption
  · intro h
    cases op <;> simp [ofSymbol?, h, symbol]

end BinaryOp

end AssignLang
