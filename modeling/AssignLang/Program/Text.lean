/-
# Programs as text

A program is written with one statement a line and every operation in round
brackets. Numerals are written anew from their values, whole ones in
`Style.plain` and real ones in `Style.pointed`, so that the two stay apart.

Key definitions: `Expr.text`, `Definition.text`, `Assignment.text`,
`Program.text`.
-/
import AssignLang.Program.Basic
import AssignLang.Number.Style

namespace AssignLang

/-- A whole numeral by its value. -/
def Literal.text (l : Literal) : String := Style.plain.write l.value

/-- An expression with all its brackets. -/
def Expr.text : Expr → String
  | integer l => l.text
  | real l => Style.pointed.write l.value
  | name t => t.text
  | negate _ e => "(-" ++ e.text ++ ")"
  | binary op _ l r => "(" ++ l.text ++ " " ++ op.symbol.toString ++ " " ++ r.text ++ ")"

/-- The line of a definition. -/
def Definition.text : Definition → String
  | real _ names => "real " ++ " ".intercalate (names.map Token.text)
  | integer _ literals => "integer " ++ " ".intercalate (literals.map Literal.text)

/-- The line of an assignment. -/
def Assignment.text (a : Assignment) : String :=
  let body := a.target.text ++ " = " ++ a.expr.text
  match a.label with
  | some l => l.text ++ ": " ++ body
  | none => body

/-- The lines of a program. -/
def Program.lines (p : Program) : List String :=
  ["begin"] ++ p.definitions.map Definition.text ++ p.assignments.map Assignment.text ++ ["end"]

/-- The text of a program, with no line feed at its end. -/
def Program.text (p : Program) : String := "\n".intercalate p.lines

end AssignLang
