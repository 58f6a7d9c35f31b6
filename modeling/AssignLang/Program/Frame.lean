/-
# Expressions half read

Between two brackets an expression is a sum of products of powers, each chain
taken from the left. While an operand is read, each level has at most one
operation that waits for its right side: a `Frame` holds the three. Closing a
level gives its operation the finished operand.

A minus sign may open a frame; it then negates the first product, however long
that gets.

Key definitions: `Pending`, `Frame`, `Frame.closePower`, `Frame.closeProduct`,
`Frame.closeSum`, `Frame.await`.
-/
import AssignLang.Program.Basic

namespace AssignLang

/-- An operation that waits for its right operand. -/
structure Pending where
  left : Expr
  op : BinaryOp
  token : Token

/-- The operation with its right operand. -/
def Pending.close (p : Pending) (right : Expr) : Expr := .binary p.op p.token p.left right

/-- What stands before the term of a sum that is being read. -/
inductive Lead
  /-- Nothing: the term is the first. -/
  | nothing
  /-- A minus sign, and the term is the first. -/
  | minus (token : Token)
  /-- The terms before it and their sign. -/
  | sum (pending : Pending)

/-- The term with what stands before it. -/
def Lead.close (lead : Lead) (term : Expr) : Expr :=
  match lead with
  | .nothing => term
  | .minus t => .negate t term
  | .sum p => p.close term

/-- The operations between two brackets that wait for an operand. -/
structure Frame where
  lead : Lead
  product : Option Pending
  power : Option Pending

/-- The levels of operators, from the one that binds most. -/
inductive Level
  | power
  | product
  | sum
  deriving DecidableEq, Repr

/-- The level of an operator token is that of its kind. -/
def Kind.level? : Kind → Option Level
  | .exponentiation => some .power
  | .multiplicative => some .product
  | .additive => some .sum
  | _ => none

/-- The waiting operation, if there is one, with its right operand. -/
def closeOption (pending : Option Pending) (right : Expr) : Expr :=
  match pending with
  | none => right
  | some p => p.close right

namespace Frame

/-- Nothing waits. -/
def empty : Frame := ⟨.nothing, none, none⟩

/-- Nothing was read since the frame began, so that a minus sign may come. -/
def isEmpty (f : Frame) : Bool :=
  match f with
  | ⟨.nothing, none, none⟩ => true
  | _ => false

/-- The power that ends with an operand. -/
def closePower (f : Frame) (e : Expr) : Expr := closeOption f.power e

/-- The product that ends with an operand. -/
def closeProduct (f : Frame) (e : Expr) : Expr := closeOption f.product (f.closePower e)

/-- The sum that ends with an operand. -/
def closeSum (f : Frame) (e : Expr) : Expr := f.lead.close (f.closeProduct e)

/-- The frame that waits for the operand after an operator. The chains that bind
more than the operator end before it. -/
def await (f : Frame) (level : Level) (e : Expr) (op : BinaryOp) (t : Token) : Frame :=
  match level with
  | .power => { f with power := some ⟨f.closePower e, op, t⟩ }
  | .product => { f with product := some ⟨f.closeProduct e, op, t⟩, power := none }
  | .sum => ⟨.sum ⟨f.closeSum e, op, t⟩, none, none⟩

end Frame

end AssignLang
