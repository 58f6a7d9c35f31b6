/-
# Evaluation as one pass over the nodes

The nodes of an expression, operands before their operator, are a program of a stack
machine. A numeral or a name puts a value on the stack, an operator takes its operands
from it, the right one first, and puts the result in their place; a node that cannot
do so stops the machine. Evaluation is one pass of this machine, with whatever stands
on the stack and whatever nodes come after: the machine never lacks an operand, leaves
one value, and stops at the first node in the order that fails, with the diagnostic of
the evaluation.

The machine is written out here without the operations of `Expr.eval`; that they
agree, operand for operand and in the order of the checks, is part of what is proved.

Key definitions: `Halt`, `Node.step`, `Node.runAll`, `pushed`.
Key theorems: `Expr.runAll_postOrder`, `Node.exists_of_runAll_eq_error`,
`Expr.eval_eq_pass`.
-/
import AssignLang.Proofs.Running.Operations

namespace AssignLang

/-- Why the machine stops at a node. -/
inductive Halt
  | fault (d : Diagnostic)
  | lacksOperand

namespace Node

/-- One node on a stack of values, whose top comes first. -/
def step (s : Scope) : Node → List Value → Except Halt (List Value)
  | integer l, stack => .ok (.number l.value :: stack)
  | real l, stack => .ok (.number l.value :: stack)
  | name t, stack =>
    match s.lookup t.text with
    | some v => .ok (v :: stack)
    | none => .error (.fault (t.fault (.undefinedVariable t.text)))
  | negate t, v :: stack =>
    match v with
    | .null => .error (.fault t.notANumber)
    | .number x => .ok (.number (-x) :: stack)
  | binary op t, right :: left :: stack =>
    match left, right with
    | .null, _ => .error (.fault t.notANumber)
    | .number _, .null => .error (.fault t.notANumber)
    | .number x, .number y =>
      if (op = .divide ∨ op = .power) ∧ (y == 0) = true then .error (.fault (t.byZero op))
      else .ok (.number (op.compute x y) :: stack)
  | _, _ => .error .lacksOperand

/-- The nodes one after the other. -/
def runAll (s : Scope) (nodes : List Node) (stack : List Value) : Except Halt (List Value) :=
  nodes.foldlM (fun stack n => n.step s stack) stack

variable {s : Scope}

theorem runAll_cons (n : Node) (nodes : List Node) (stack : List Value) :
    runAll s (n :: nodes) stack = n.step s stack >>= runAll s nodes := List.foldlM_cons ..

theorem runAll_append (first second : List Node) (stack : List Value) :
    runAll s (first ++ second) stack = runAll s first stack >>= runAll s second :=
  List.foldlM_append ..

theorem runAll_singleton (n : Node) (stack : List Value) :
    runAll s [n] stack = n.step s stack := by
  rw [runAll_cons]
  cases n.step s stack <;> rfl

/-- A pass that stops has a first node that fails, on the stack that the nodes before it
leave. -/
theorem exists_of_runAll_eq_error {halt : Halt} : ∀ {nodes : List Node} {stack : List Value},
    runAll s nodes stack = .error halt → ∃ before n after stack',
      nodes = before ++ n :: after ∧ runAll s before stack = .ok stack' ∧
        n.step s stack' = .error halt
  | [], stack, h => by cases h
  | n :: nodes, stack, h => by
    rw [runAll_cons] at h
    rcases bind_eq_error_iff.mp h with hn | ⟨next, hn, hnodes⟩
    · exact ⟨[], n, nodes, stack, rfl, rfl, hn⟩
    · obtain ⟨before, m, after, stack', rfl, hbefore, hm⟩ := exists_of_runAll_eq_error hnodes
      refine ⟨n :: before, m, after, stack', rfl, ?_, hm⟩
      rw [runAll_cons, hn]
      exact hbefore

end Node

/-- What an evaluation leaves on a stack. -/
def pushed (outcome : Except Diagnostic Value) (stack : List Value) : Except Halt (List Value) :=
  match outcome with
  | .ok v => .ok (v :: stack)
  | .error d => .error (.fault d)

theorem pushed_eq_fault_iff {outcome : Except Diagnostic Value} {stack : List Value}
    {d : Diagnostic} : pushed outcome stack = .error (.fault d) ↔ outcome = .error d := by
  cases outcome with
  | ok v => simp [pushed]
  | error e => simp [pushed]

variable {s : Scope}

theorem Node.step_name (t : Token) (stack : List Value) :
    (Node.name t).step s stack = pushed (s.read t) stack := by
  rw [step, Scope.read]
  cases s.lookup t.text <;> rfl

theorem Node.step_negate (t : Token) (v : Value) (stack : List Value) :
    (Node.negate t).step s (v :: stack) = pushed (v.negate t) stack := by
  cases v <;> rfl

/-- The check of the divisor is the one that the operator asks for. -/
theorem BinaryOp.refusesZero_iff {op : BinaryOp} :
    op.refusesZero = true ↔ op = .divide ∨ op = .power := by
  cases op <;> simp [refusesZero]

theorem Node.step_binary (op : BinaryOp) (t : Token) (left right : Value) (stack : List Value) :
    (Node.binary op t).step s (right :: left :: stack) =
      pushed (op.apply t left right) stack := by
  cases left with
  | null => rfl
  | number x =>
    cases right with
    | null => rfl
    | number y =>
      simp only [step, ← BinaryOp.refusesZero_iff, ← Bool.and_eq_true]
      cases hzero : op.refusesZero && y == 0 with
      | false => rw [BinaryOp.apply_eq_ok_iff.mpr ⟨x, y, rfl, rfl, hzero, rfl⟩]; rfl
      | true =>
        rw [BinaryOp.apply_eq_error_iff.mpr (.inr (.inr ⟨x, y, rfl, rfl, hzero, rfl⟩))]; rfl

/-- **The nodes of an expression put its value on the stack**, whatever is on it. -/
theorem Expr.runAll_postOrder (e : Expr) (stack : List Value) :
    Node.runAll s e.postOrder stack = pushed (e.eval s) stack := by
  induction e generalizing stack with
  | integer l => rfl
  | real l => rfl
  | name t => rw [postOrder, Node.runAll_singleton, Node.step_name, eval]
  | negate t e ih =>
    rw [postOrder, Node.runAll_append, ih, eval]
    cases e.eval s with
    | error d => rfl
    | ok v => exact (Node.runAll_singleton ..).trans (Node.step_negate ..)
  | binary op t l r ihl ihr =>
    rw [postOrder, Node.runAll_append, Node.runAll_append, ihl, eval]
    cases l.eval s with
    | error d => rfl
    | ok x =>
      change Node.runAll s r.postOrder (x :: stack) >>= Node.runAll s [.binary op t] = _
      rw [ihr]
      change _ = pushed (r.eval s >>= fun y => op.apply t x y) stack
      cases r.eval s with
      | error d => rfl
      | ok y => exact (Node.runAll_singleton ..).trans (Node.step_binary ..)

/-- **Evaluation is one pass over the nodes**, operands before their operator, the left
one first. The pass never lacks an operand, it goes over all the nodes if there is a
value, and otherwise the diagnostic is that of the first node that fails. -/
theorem Expr.eval_eq_pass (e : Expr) (s : Scope) :
    Node.runAll s e.postOrder [] = pushed (e.eval s) [] ∧
    (∀ stack rest, Node.runAll s (e.postOrder ++ rest) stack =
      pushed (e.eval s) stack >>= Node.runAll s rest) ∧
    (∀ before after, e.postOrder = before ++ after →
      Node.runAll s before [] ≠ .error .lacksOperand) ∧
    (∀ v, e.eval s = .ok v → ∀ before after, e.postOrder = before ++ after →
      ∃ stack, Node.runAll s before [] = .ok stack) ∧
    ∀ d, e.eval s = .error d → ∃ before n after stack, e.postOrder = before ++ n :: after ∧
      Node.runAll s before [] = .ok stack ∧ n.step s stack = .error (.fault d) := by
  have hpass : Node.runAll s e.postOrder [] = pushed (e.eval s) [] := e.runAll_postOrder []
  have hsplit : ∀ before after, e.postOrder = before ++ after →
      Node.runAll s before [] >>= Node.runAll s after = pushed (e.eval s) [] := by
    intro before after h
    rw [← Node.runAll_append, ← h, hpass]
  refine ⟨hpass, ?_, ?_, ?_, ?_⟩
  · intro stack rest
    rw [Node.runAll_append, e.runAll_postOrder]
  · intro before after h hlacks
    have hboth := hsplit before after h
    rw [hlacks] at hboth
    cases he : e.eval s with
    | ok v => rw [he] at hboth; cases hboth
    | error d => rw [he] at hboth; cases hboth
  · intro v hv before after h
    have hboth := hsplit before after h
    rw [hv] at hboth
    obtain ⟨stack, hstack, -⟩ := bind_eq_ok_iff.mp hboth
    exact ⟨stack, hstack⟩
  · intro d hd
    rw [hd] at hpass
    exact Node.exists_of_runAll_eq_error hpass

end AssignLang
