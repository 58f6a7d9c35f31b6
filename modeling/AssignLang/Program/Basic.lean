/-
# Programs

A program is a list of definitions and a list of assignments. Both keep the
tokens they were read from; brackets, signs and line feeds leave nothing. Two
programs are equal, as `==` has it, when they agree in every token and in every
value, values being compared as numbers.

`Expr.postOrder` lists the nodes of an expression with the operands before
their operator, the left one first.

Key definitions: `Literal`, `Expr`, `Expr.postOrder`, `Definition`,
`Assignment`, `Program`.
-/
import AssignLang.Token.Basic
import AssignLang.Program.Operator

namespace AssignLang

/-- A numeral of the program with its value. -/
structure Literal where
  token : Token
  value : Float
  deriving BEq

/-- An expression. -/
inductive Expr
  /-- A numeral without a point. -/
  | integer (literal : Literal)
  /-- A numeral with a point. -/
  | real (literal : Literal)
  | name (token : Token)
  | negate (token : Token) (operand : Expr)
  | binary (op : BinaryOp) (token : Token) (left right : Expr)
  deriving BEq

/-- One node of an expression, without its operands. -/
inductive Node
  | integer (literal : Literal)
  | real (literal : Literal)
  | name (token : Token)
  | negate (token : Token)
  | binary (op : BinaryOp) (token : Token)

/-- The nodes of an expression, operands before their operator. -/
def Expr.postOrder : Expr → List Node
  | integer l => [.integer l]
  | real l => [.real l]
  | name t => [.name t]
  | negate t e => e.postOrder ++ [.negate t]
  | binary op t l r => l.postOrder ++ r.postOrder ++ [.binary op t]

/-- A line that declares names or lists whole numbers. -/
inductive Definition
  | real (keyword : Token) (names : List Token)
  | integer (keyword : Token) (literals : List Literal)
  deriving BEq

/-- A line that gives a variable the value of an expression. A label changes
nothing. -/
structure Assignment where
  label : Option Literal
  target : Token
  expr : Expr
  deriving BEq

/-- A program: its definitions and then its assignments, each in order. -/
structure Program where
  definitions : List Definition
  assignments : List Assignment
  deriving BEq

end AssignLang
