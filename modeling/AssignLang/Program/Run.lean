/-
# Running a program

An expression is evaluated in a scope: operands first, the left one before the
right, then the operation. Arithmetic is that of doubles. An operand must be a
number, and the right operand of a division or a power must not be zero; the
diagnostic stands at the operator. An assignment binds its target to the value,
and a program runs its assignments in order and stops at the first diagnostic,
keeping what was bound before it. Definitions are not looked at.

Key definitions: `BinaryOp.apply`, `Expr.eval`, `Assignment.run`,
`Program.run`.
-/
import AssignLang.Program.Basic
import AssignLang.Scope
import AssignLang.Diagnostic

namespace AssignLang

/-- A diagnostic at a token. -/
def Token.fault (t : Token) (cause : Cause) : Diagnostic := ⟨cause, t.span, t.start⟩

namespace BinaryOp

/-- Whether the operation refuses a right operand of zero. -/
def refusesZero : BinaryOp → Bool
  | divide => true
  | power => true
  | _ => false

/-- The operation on doubles. -/
def compute : BinaryOp → Float → Float → Float
  | add, x, y => x + y
  | subtract, x, y => x - y
  | multiply, x, y => x * y
  | divide, x, y => x / y
  | power, x, y => x.pow y

end BinaryOp

/-- The number a value is, which the operator at token `t` asks for. -/
def Value.asNumber (v : Value) (t : Token) : Except Diagnostic Float :=
  match v with
  | .number x => .ok x
  | v => .error (t.fault (.notANumber v.sort))

/-- The operation of the token `t` on two values. -/
def BinaryOp.apply (op : BinaryOp) (t : Token) (left right : Value) : Except Diagnostic Value := do
  let x ← left.asNumber t
  let y ← right.asNumber t
  if op.refusesZero && y == 0 then .error (t.fault (.divisionByZero op))
  else .ok (.number (op.compute x y))

/-- The negation of a value by the token `t`. -/
def Value.negate (v : Value) (t : Token) : Except Diagnostic Value := do
  let x ← v.asNumber t
  .ok (.number (-x))

/-- The value of the variable that the token `t` names. -/
def Scope.read (s : Scope) (t : Token) : Except Diagnostic Value :=
  match s.lookup t.text with
  | some v => .ok v
  | none => .error (t.fault (.undefinedVariable t.text))

/-- The value of an expression. -/
def Expr.eval (s : Scope) : Expr → Except Diagnostic Value
  | integer l => .ok (.number l.value)
  | real l => .ok (.number l.value)
  | name t => s.read t
  | negate t e => do
    let v ← e.eval s
    v.negate t
  | binary op t l r => do
    let x ← l.eval s
    let y ← r.eval s
    op.apply t x y

/-- Gives the target of an assignment its value. The scope stays as it is if
there is none. -/
def Assignment.run (a : Assignment) (s : Scope) : Except Diagnostic Value × Scope :=
  match a.expr.eval s with
  | .ok v => (.ok v, s.declare a.target.text v)
  | .error d => (.error d, s)

/-- Runs assignments in order up to the first diagnostic; `last` is the value
of the assignment before them. -/
def Assignment.runAll (last : Value) : List Assignment → Scope → Except Diagnostic Value × Scope
  | [], s => (.ok last, s)
  | a :: as, s =>
    match a.run s with
    | (.ok v, s') => runAll v as s'
    | (.error d, s') => (.error d, s')

/-- Runs a program. Its value is that of the last assignment, or null if there
is none. -/
def Program.run (p : Program) (s : Scope) : Except Diagnostic Value × Scope :=
  Assignment.runAll .null p.assignments s

end AssignLang
