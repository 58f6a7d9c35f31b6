/-
# Diagnostics

A diagnostic says what is wrong with a program and where. The causes are those
of the three stages: reading tokens, reading the program, and running it. The
wording of each stands in `Cause.message` and nowhere else.

Key definitions: `Cause`, `Cause.message`, `Diagnostic`.
-/
import AssignLang.Source.Position
import AssignLang.Program.Operator
import AssignLang.Text.Escape

namespace AssignLang

/-- What is wrong. -/
inductive Cause
  /-- A character that belongs to no token. -/
  | unexpectedCharacter (c : Char)
  /-- A word that is no name. -/
  | malformedName (name : String)
  /-- A token that the program cannot have there. -/
  | unexpectedToken (message : String)
  /-- A literal whose text is no numeral. -/
  | malformedLiteral (message : String)
  /-- A variable that has no value yet. -/
  | undefinedVariable (name : String)
  /-- An operand that is no number, with what it is. -/
  | notANumber (found : String)
  /-- A division by zero, or a power with exponent zero. -/
  | divisionByZero (op : BinaryOp)
  deriving DecidableEq, Repr

/-- What a reader is told. -/
def Cause.message : Cause → String
  | unexpectedCharacter c =>
    "Unknown character '" ++ Text.escapeChar c ++ "' (" ++ toString c.toNat ++ ")"
  | malformedName name => "Unknown variable '" ++ name ++ "'"
  | unexpectedToken message => message
  | malformedLiteral message => message
  | undefinedVariable name => "Undefined variable '" ++ name ++ "'"
  | notANumber found => "Expected a number, got " ++ found
  | divisionByZero op => "Division by zero in '" ++ op.symbol.toString ++ "'"

/-- What is wrong and where. -/
structure Diagnostic where
  cause : Cause
  span : Span
  position : Position
  deriving DecidableEq, Repr

/-- What a reader is told, without the place. -/
def Diagnostic.message (d : Diagnostic) : String := d.cause.message

end AssignLang
