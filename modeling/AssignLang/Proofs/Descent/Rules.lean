/-
# Reading by descent

A descent reads a program with one rule for every sort of line and phrase. The rules
call each other and move one cursor over the tokens. `advance` passes the token at the
cursor, but at the last token it stays where it is: a loop that went on there would
never end. Nothing in the rules makes them end. Every loop, and the descent into
brackets, has a limit instead, and a descent that reaches it is given up: it has no
outcome (`none`). One that looks for a token outside the list stops with `outOfRange`.

Beside its place the cursor keeps an account of the descent, which no rule looks at:
each call of `advance`, and each round, with the number of calls before and after it.

Key definitions: `Cursor`, `Walk`, `advance`, `loop`, `sum`, `expression`,
`definitions`, `assignments`, `program`.
-/
import AssignLang.Program.Run
import AssignLang.Program.Reading
import AssignLang.Proofs.Grammar.Phrase

namespace AssignLang
namespace Descent

/-- What a descent does again and again: the turns of its loops, and the ways into
brackets. -/
inductive Round
  | definitions
  | names
  | integers
  | assignments
  | lineFeeds
  | chain (level : Level)
  | brackets
  deriving DecidableEq, Repr

/-- A round, with the number of calls of `advance` before it and up to its end. -/
structure Mark where
  round : Round
  before : Nat
  after : Nat
  deriving DecidableEq, Repr

/-- Where a descent is, and its account. -/
structure Cursor where
  /-- The number of the next token. -/
  current : Nat
  /-- The number of the token that was passed last. -/
  previous : Option Nat
  /-- The calls of `advance`, each with the next token before and after it. -/
  moves : List (Nat × Nat)
  /-- The rounds that came to their end. -/
  marks : List Mark

/-- Nothing was read. -/
def Cursor.start : Cursor := ⟨0, none, [], []⟩

/-- The number of tokens up to the one that was passed last. -/
def Cursor.consumed (c : Cursor) : Nat :=
  match c.previous with
  | some i => i + 1
  | none => 0

/-- Why a descent stops early. -/
inductive Stop
  | fault (d : Diagnostic)
  /-- A token was looked for outside the list. -/
  | outOfRange
  deriving DecidableEq, Repr

/-- A part of a descent over a list of tokens. -/
abbrev Walk := ReaderT (List Token) (ExceptT Stop (StateT Cursor Option))

/-- What a part of a descent comes to, and the cursor then; nothing if it is given up. -/
def Walk.run {α : Type} (x : Walk α) (ts : List Token) (c : Cursor) :
    Option (Except Stop α × Cursor) :=
  ((ReaderT.run x ts).run).run c

/-! ### The cursor -/

/-- The token with a number. -/
def tokenAt (i : Nat) : Walk Token := do
  match (← read)[i]? with
  | some t => return t
  | none => throw .outOfRange

/-- The next token; behind the last token it is the last one. -/
def peek : Walk Token := do
  let ts ← read
  let c ← get
  tokenAt (min c.current (ts.length - 1))

/-- Passes the next token. -/
def advance : Walk Token := do
  let ts ← read
  let c ← get
  let last := ts.length - 1
  let index := min c.current last
  let next := if c.current < last then c.current + 1 else c.current
  set { c with current := next, previous := some index, moves := c.moves ++ [(c.current, next)] }
  tokenAt index

/-- The number of calls of `advance` so far. -/
def calls : Walk Nat := return (← get).moves.length

/-- A round is over that began after `before` calls of `advance`. -/
def mark (round : Round) (before : Nat) : Walk Unit :=
  modify fun c => { c with marks := c.marks ++ [⟨round, before, c.moves.length⟩] }

/-- The last token before the cursor that is no line feed. -/
def lastVisible : Walk (Option Token) := do
  let ts ← read
  let c ← get
  if c.consumed ≤ ts.length then
    return (ts.take c.consumed).reverse.find? fun t => t.kind != .newline
  else throw .outOfRange

/-- Stops with a diagnostic about the next token, or about the last visible one if
that cannot be seen. -/
def refuse {α : Type} (message : String) : Walk α := do
  let t ← peek
  let shown ← if t.kind = .newline ∨ t.kind = .eof then lastVisible else pure none
  throw (.fault ((shown.getD t).fault (.unexpectedToken message)))

/-- Whether the next token is of one of the kinds. -/
def check (ks : List Kind) : Walk Bool := return ks.contains (← peek).kind

/-- Passes the next token if it is of one of the kinds. -/
def expect (ks : List Kind) (message : String) : Walk Token := do
  if ← check ks then advance else refuse message

/-- A literal, or the diagnostic about its token. -/
def literal (t : Token) (l : Except Cause Literal) : Walk Literal :=
  match l with
  | .ok l => return l
  | .error cause => throw (.fault (t.fault cause))

/-- A numeral without a point. -/
def integer : Walk Literal := do
  let t ← expect [.literalInt] Violation.integerMissing.message
  literal t (Literal.integer t)

/-- The sign that comes next, whatever it is, and its operator. -/
def sign : Walk (Token × BinaryOp) := do
  let t ← advance
  match BinaryOp.ofSymbol? t.text with
  | some op => return (t, op)
  | none => throw (.fault (t.fault (.unexpectedToken Violation.unknownOperator.message)))

/-- Passes a minus sign. -/
def minus : Walk (Option Token) := do
  let t ← peek
  if t.kind = .additive ∧ t.text = "-" then return some (← advance) else return none

/-! ### Rounds -/

/-- No outcome. -/
def giveUp {α : Type} : Walk α := fun _ _ => none

/-- One round. -/
def turn {α : Type} (round : Round) (x : Walk α) : Walk α := do
  let before ← calls
  let a ← x
  mark round before
  return a

/-- Rounds as long as `again` finds that there is one more, which it may do fewer times
than the limit. -/
def loop {σ : Type} (round : Round) (again : Walk Bool) (step : σ → Walk σ) : Nat → σ → Walk σ
  | 0, _ => giveUp
  | limit + 1, s => do
    if ← again then
      let s ← turn round (step s)
      loop round again step limit s
    else return s

section
variable (limit : Nat)

/-! ### Expressions -/

/-- The rest of a chain that begins with `e`. -/
def links (level : Level) (operand : Walk Expr) (e : Expr) : Walk Expr :=
  loop (.chain level) (check [level.sign]) (fun e => do
    let (t, op) ← sign
    let right ← operand
    return .binary op t e right) limit e

/-- A chain of operands. -/
def chain (level : Level) (operand : Walk Expr) : Walk Expr := do
  links limit level operand (← operand)

/-- A literal, a name, or brackets around what `inner` reads. -/
def primary (inner : Walk Expr) : Walk Expr := do
  let t ← peek
  match t.kind with
  | .literalInt => return .integer (← integer)
  | .literalReal => do
    let t ← advance
    return .real (← literal t (Literal.real t))
  | .identifier => return .name (← advance)
  | k =>
    if k.isOpening then
      let _ ← turn .brackets advance
      let e ← inner
      let _ ← expect [.parenRight, .bracketRight] Violation.closingMissing.message
      return e
    else refuse (Violation.operandMissing t).message

/-- A product of powers of primaries. -/
def product (inner : Walk Expr) : Walk Expr :=
  chain limit .product (chain limit .power (primary inner))

/-- A sum of products; a minus sign at its start takes the whole first product. -/
def sum (inner : Walk Expr) : Walk Expr := do
  match ← minus with
  | some t => links limit .sum (product limit inner) (.negate t (← product limit inner))
  | none => links limit .sum (product limit inner) (← product limit inner)

/-- A sum with less than so many brackets around any part of it. -/
def expression : Nat → Walk Expr
  | 0 => giveUp
  | depth + 1 => sum limit (expression depth)

/-! ### Lines -/

/-- Passes line feeds. -/
def skipLineFeeds : Walk Unit :=
  loop .lineFeeds (check [.newline]) (fun _ => do let _ ← advance) limit ()

/-- A statement may only begin behind a line feed. -/
def beginLine (message : String) : Walk Unit := do
  skipLineFeeds limit
  match (← get).previous with
  | some i => if (← tokenAt i).kind ≠ .newline then refuse message
  | none => return

/-- An item, and more of them as long as tokens of the kind follow. -/
def items {α : Type} (round : Round) (k : Kind) (item : Walk α) : Walk (Array α) := do
  let step := fun xs => return xs.push (← item)
  let xs ← turn round (step #[])
  loop round (check [k]) step limit xs

/-- The names or numbers of a definition. -/
def declared (keyword : Token) : Walk Definition := do
  if keyword.kind = .realWord then
    let names ← items limit .names .identifier (expect [.identifier] Violation.nameMissing.message)
    return .real keyword names.toList
  else
    let literals ← items limit .integers .literalInt integer
    return .integer keyword literals.toList

/-- A definition and the line feed after it. -/
def definition : Walk Definition := do
  let keyword ← expect [.realWord, .integerWord] "Definitions must start with 'real' or 'integer'"
  let d ← declared limit keyword
  let _ ← expect [.newline] Violation.definitionUnfinished.message
  return d

/-- A label and its colon. -/
def label : Walk (Option Literal) := do
  if ← check [.literalInt] then
    let l ← integer
    let _ ← expect [.colon] Violation.colonMissing.message
    return some l
  else return none

/-- An assignment, up to its line feed. -/
def assignment : Walk Assignment := do
  let l ← label
  let target ← expect [.identifier] Violation.targetMissing.message
  let _ ← expect [.assign] Violation.assignMissing.message
  return ⟨l, target, ← expression limit limit⟩

/-- All definitions. -/
def definitions : Walk (Array Definition) :=
  loop .definitions (do skipLineFeeds limit; check [.realWord, .integerWord]) (fun ds => do
    beginLine limit Violation.definitionInLine.message
    return ds.push (← definition limit)) limit #[]

/-- All assignments. -/
def assignments : Walk (Array Assignment) :=
  loop .assignments (check [.literalInt, .identifier]) (fun as => do
    beginLine limit Violation.assignmentInLine.message
    let a ← assignment limit
    skipLineFeeds limit
    return as.push a) limit #[]

/-- A program without the end of the text. -/
def body : Walk Program := do
  let _ ← expect [.beginWord] Violation.beginMissing.message
  let ds ← definitions limit
  skipLineFeeds limit
  let as ← assignments limit
  beginLine limit Violation.endInLine.message
  let _ ← expect [.endWord] Violation.endMissing.message
  return ⟨ds.toList, as.toList⟩

/-- A program and the end of the text. -/
def program : Walk Program := do
  let p ← body limit
  let _ ← expect [.eof] Violation.inputAfterEnd.message
  return p

end

end Descent
end AssignLang
