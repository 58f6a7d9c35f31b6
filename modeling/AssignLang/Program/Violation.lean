/-
# What a program must not have

The ways in which a list of tokens fails to be a program, each with the message
a reader gets. Which one it is follows from what was read so far and the token
that cannot stand there.

Key definitions: `Violation`, `Violation.message`.
-/
import AssignLang.Token.Basic

namespace AssignLang

/-- Why a token cannot stand where it stands. -/
inductive Violation
  /-- The first token is not `begin`. -/
  | beginMissing
  /-- A definition follows something else on its line. -/
  | definitionInLine
  /-- An assignment follows something else on its line. -/
  | assignmentInLine
  /-- What should be `end` follows something else on its line. -/
  | endInLine
  /-- A line starts with no statement and not with `end`. -/
  | endMissing
  /-- Something follows `end`. -/
  | inputAfterEnd
  /-- A `real` line lists no name. -/
  | nameMissing
  /-- An `integer` line lists no number. -/
  | integerMissing
  /-- A definition does not end with its line. -/
  | definitionUnfinished
  /-- A label without colon. -/
  | colonMissing
  /-- A label without target. -/
  | targetMissing
  /-- A target without equals sign. -/
  | assignMissing
  /-- A bracket is not closed. -/
  | closingMissing
  /-- A token that starts no expression stands where one should. -/
  | operandMissing (found : Token)
  /-- An operator token whose text is no operator. -/
  | unknownOperator
  deriving DecidableEq, Repr

/-- What a reader is told. -/
def Violation.message : Violation → String
  | beginMissing => "The program must start with 'begin'"
  | definitionInLine => "Definitions must start on a new line"
  | assignmentInLine => "Operators must start on a new line"
  | endInLine => "The program must end with 'end' on a new line"
  | endMissing => "The program must end with 'end'"
  | inputAfterEnd => "Unexpected input after 'end'"
  | nameMissing => "Expected variable name"
  | integerMissing => "Expected integer"
  | definitionUnfinished => "Definitions must end with a new line"
  | colonMissing => "Expected ':' after label"
  | targetMissing => "Operators must start with a variable"
  | assignMissing => "Expected '=' after variable"
  | closingMissing => "Missing closing bracket"
  | operandMissing found => "Expected expression, got " ++ found.display
  | unknownOperator => "Unknown operator"

end AssignLang
