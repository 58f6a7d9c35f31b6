/-
# Reading a program from tokens

The tokens are read from left to right, each of them once, and `Reading.step`
says for every token whether it can stand after those before it. What was read
is kept as the finished statements and a `Phase`: what the statement at hand
has so far. A token that cannot stand there is the diagnostic, and
`Phase.violation` gives the reason; so a diagnostic always names the first
token that no program could have after those before it.

A line feed and the end of the text cannot be seen, and a diagnostic about one
of them points at the last visible token before it.

A statement takes one line. Definitions come before assignments. Either kind of
closing bracket ends either kind of opening bracket. The operator of a token is
its text, and its level is its kind.

Key definitions: `Phase`, `Phase.violation`, `Reading.step`, `Reading.run`,
`parse`.
-/
import AssignLang.Program.Frame
import AssignLang.Program.Violation
import AssignLang.Number.Numeral
import AssignLang.Diagnostic

namespace AssignLang

/-- The value of a numeral token. -/
def Literal.ofToken (sort : String) (t : Token) : Except Cause Literal :=
  match Numeral.read t.text with
  | .ok x => .ok ⟨t, x⟩
  | .error e =>
    .error (.malformedLiteral ("Failed to parse " ++ sort ++ " literal: " ++ e.message))

/-- The value of a numeral token without a point. -/
def Literal.integer (t : Token) : Except Cause Literal := ofToken "integer" t

/-- The value of a numeral token with a point. -/
def Literal.real (t : Token) : Except Cause Literal := ofToken "real" t

/-- The left side of an assignment. -/
structure Head where
  label : Option Literal
  target : Token

/-- What the statement at hand has so far. -/
inductive Phase
  /-- Nothing was read. -/
  | start
  /-- `begin` was read, and its line is not over. -/
  | heading
  /-- A line begins. -/
  | line
  /-- `real` and some names. -/
  | names (keyword : Token) (names : Array Token)
  /-- `integer` and some numbers. -/
  | integers (keyword : Token) (literals : Array Literal)
  /-- A label. -/
  | label (literal : Literal)
  /-- A label and its colon. -/
  | labelled (literal : Literal)
  /-- A target, with its label if it has one. -/
  | target (head : Head)
  /-- An operand must come. The frames of the open brackets follow the frame at
  hand, from the inside to the outside. -/
  | operand (head : Head) (frame : Frame) (outer : List Frame)
  /-- An operand was read. -/
  | operator (head : Head) (frame : Frame) (outer : List Frame) (operand : Expr)
  /-- `end` was read. -/
  | ended

/-- Why a token cannot stand where it would start a statement or be `end`, but
no line begins. -/
def Violation.inLine : Kind → Violation
  | .literalInt => assignmentInLine
  | .identifier => assignmentInLine
  | _ => endInLine

/-- Why a token cannot come next. -/
def Phase.violation (p : Phase) (t : Token) : Violation :=
  match p with
  | start => .beginMissing
  | heading =>
    match t.kind with
    | .realWord => .definitionInLine
    | .integerWord => .definitionInLine
    | k => .inLine k
  | line => .endMissing
  | names _ ns => if ns.isEmpty then .nameMissing else .definitionUnfinished
  | integers _ ls => if ls.isEmpty then .integerMissing else .definitionUnfinished
  | label _ => .colonMissing
  | labelled _ => .targetMissing
  | target _ => .assignMissing
  | operand .. => .operandMissing t
  | operator _ _ [] _ => .inLine t.kind
  | operator _ _ (_ :: _) _ => .closingMissing
  | ended => .inputAfterEnd

/-- The statements that were read, and what was read of the next one. -/
structure Reading where
  definitions : Array Definition
  assignments : Array Assignment
  phase : Phase

namespace Reading

/-- Nothing was read. -/
def start : Reading := ⟨#[], #[], .start⟩

/-- The reading goes on with the statement at hand. -/
def go (r : Reading) (phase : Phase) : Except Cause Reading := .ok { r with phase := phase }

/-- The token cannot come next. -/
def reject {α : Type} (r : Reading) (t : Token) : Except Cause α :=
  .error (.unexpectedToken (r.phase.violation t).message)

/-- A definition ends with its line. -/
def define (r : Reading) (d : Definition) : Reading :=
  { r with definitions := r.definitions.push d, phase := .line }

/-- An assignment ends with its line. -/
def assign (r : Reading) (a : Assignment) : Reading :=
  { r with assignments := r.assignments.push a, phase := .line }

/-- The first token of a line. A definition cannot follow an assignment. -/
def stepLine (r : Reading) (t : Token) : Except Cause Reading :=
  match t.kind with
  | .newline => .ok r
  | .realWord => if r.assignments.isEmpty then r.go (.names t #[]) else r.reject t
  | .integerWord => if r.assignments.isEmpty then r.go (.integers t #[]) else r.reject t
  | .literalInt => do
    let l ← Literal.integer t
    r.go (.label l)
  | .identifier => r.go (.target ⟨none, t⟩)
  | .endWord => r.go .ended
  | _ => r.reject t

/-- A token where an operand must come. -/
def stepOperand (r : Reading) (head : Head) (frame : Frame) (outer : List Frame) (t : Token) :
    Except Cause Reading :=
  match t.kind with
  | .literalInt => do
    let l ← Literal.integer t
    r.go (.operator head frame outer (.integer l))
  | .literalReal => do
    let l ← Literal.real t
    r.go (.operator head frame outer (.real l))
  | .identifier => r.go (.operator head frame outer (.name t))
  | .additive =>
    if t.text = "-" ∧ frame.isEmpty then r.go (.operand head ⟨.minus t, none, none⟩ outer)
    else r.reject t
  | k => if k.isOpening then r.go (.operand head .empty (frame :: outer)) else r.reject t

/-- A token after an operand that ends what is between two brackets, or the
assignment. -/
def stepClose (r : Reading) (head : Head) (frame : Frame) (outer : List Frame) (e : Expr)
    (t : Token) : Except Cause Reading :=
  match outer with
  | [] =>
    if t.kind = .newline then .ok (r.assign ⟨head.label, head.target, frame.closeSum e⟩)
    else r.reject t
  | next :: outer =>
    if t.kind.isClosing then r.go (.operator head next outer (frame.closeSum e))
    else r.reject t

/-- A token after an operand. -/
def stepOperator (r : Reading) (head : Head) (frame : Frame) (outer : List Frame) (e : Expr)
    (t : Token) : Except Cause Reading :=
  match t.kind.level? with
  | some level =>
    match BinaryOp.ofSymbol? t.text with
    | some op => r.go (.operand head (frame.await level e op t) outer)
    | none => .error (.unexpectedToken Violation.unknownOperator.message)
  | none => r.stepClose head frame outer e t

/-- What was read, after one more token. -/
def step (r : Reading) (t : Token) : Except Cause Reading :=
  match r.phase with
  | .start => if t.kind = .beginWord then r.go .heading else r.reject t
  | .heading => if t.kind = .newline then r.go .line else r.reject t
  | .line => r.stepLine t
  | .names keyword ns =>
    if t.kind = .identifier then r.go (.names keyword (ns.push t))
    else if t.kind = .newline ∧ ¬ ns.isEmpty then .ok (r.define (.real keyword ns.toList))
    else r.reject t
  | .integers keyword ls =>
    if t.kind = .literalInt then do
      let l ← Literal.integer t
      r.go (.integers keyword (ls.push l))
    else if t.kind = .newline ∧ ¬ ls.isEmpty then .ok (r.define (.integer keyword ls.toList))
    else r.reject t
  | .label l => if t.kind = .colon then r.go (.labelled l) else r.reject t
  | .labelled l => if t.kind = .identifier then r.go (.target ⟨some l, t⟩) else r.reject t
  | .target head => if t.kind = .assign then r.go (.operand head .empty []) else r.reject t
  | .operand head frame outer => r.stepOperand head frame outer t
  | .operator head frame outer e => r.stepOperator head frame outer e t
  | .ended => r.reject t

/-- The program that was read, when the end of the text comes. -/
def finish (r : Reading) (t : Token) : Except Cause Program :=
  match r.phase with
  | .ended => .ok ⟨r.definitions.toList, r.assignments.toList⟩
  | _ => r.reject t

/-- The token that a diagnostic about `t` points at, when the tokens `passed`
come before it, the last one first. -/
def pointAt (passed : List Token) (t : Token) : Token :=
  if t.isVisible then t else (passed.find? Token.isVisible).getD t

/-- The diagnostic about the token `t`. -/
def fault (passed : List Token) (t : Token) (cause : Cause) : Diagnostic :=
  let shown := pointAt passed t
  ⟨cause, shown.span, shown.start⟩

/-- Reads tokens up to the end of the text, which is the token `last` if none of
them is. The tokens `passed` were read, the last one first. -/
def run (last : Token) (passed : List Token) (r : Reading) :
    List Token → Except Diagnostic Program
  | [] => (r.finish last).mapError (fault passed last)
  | t :: ts =>
    if t.kind = .eof then (r.finish t).mapError (fault passed t)
    else
      match r.step t with
      | .ok r' => run last (t :: passed) r' ts
      | .error cause => .error (fault passed t cause)

end Reading

/-- The program that tokens write. What follows the first end of the text is not
looked at; if there is none, the text ends after the last token. -/
def parse (ts : List Token) : Except Diagnostic Program :=
  Reading.start.run (Token.endAfter ts) [] ts

end AssignLang
