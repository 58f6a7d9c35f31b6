/-
# Tokens

A token is a piece of the source text with its kind, its place, and whether
blanks stood right before it. A line feed is a token, since a statement ends
with its line; the end of the text is one too, with no characters.

Key definitions: `Kind`, `Kind.name`, `Token`, `Token.display`,
`Token.isVisible`, `Token.endAfter`.
-/
import AssignLang.Source.Position

namespace AssignLang

/-- The kinds of token. -/
inductive Kind
  | beginWord
  | endWord
  | realWord
  | integerWord
  | literalInt
  | literalReal
  | identifier
  | assign
  | colon
  | additive
  | multiplicative
  | exponentiation
  | parenLeft
  | parenRight
  | bracketLeft
  | bracketRight
  | newline
  | eof
  deriving DecidableEq, Repr

namespace Kind

/-- The name of a kind in a token listing. -/
def name : Kind → String
  | beginWord => "Begin"
  | endWord => "End"
  | realWord => "Real"
  | integerWord => "Integer"
  | literalInt => "LiteralInt"
  | literalReal => "LiteralReal"
  | identifier => "Identifier"
  | assign => "Assign"
  | colon => "Colon"
  | additive => "AdditiveOperator"
  | multiplicative => "MultiplicativeOperator"
  | exponentiation => "Exponentiation"
  | parenLeft => "ParenthesisLeft"
  | parenRight => "ParenthesisRight"
  | bracketLeft => "SquareBracketLeft"
  | bracketRight => "SquareBracketRight"
  | newline => "Newline"
  | eof => "Eof"

/-- Every kind, in the order of their declaration. -/
def all : List Kind :=
  [beginWord, endWord, realWord, integerWord, literalInt, literalReal, identifier, assign, colon,
   additive, multiplicative, exponentiation, parenLeft, parenRight, bracketLeft, bracketRight,
   newline, eof]

theorem mem_all (k : Kind) : k ∈ all := by cases k <;> decide

/-- The kind with a given name. -/
def ofName? (text : String) : Option Kind := all.find? fun k => k.name == text

/-- The kinds that open a bracket. -/
def isOpening (k : Kind) : Bool := k == parenLeft || k == bracketLeft

/-- The kinds that close a bracket. -/
def isClosing (k : Kind) : Bool := k == parenRight || k == bracketRight

end Kind

/-- A token of the source text. -/
structure Token where
  kind : Kind
  text : String
  span : Span
  /-- The position of the first character. -/
  start : Position
  /-- Whether blanks stand right before the token. -/
  spaceBefore : Bool
  deriving DecidableEq, Repr

namespace Token

/-- The token as a message quotes it. -/
def display (t : Token) : String :=
  match t.kind with
  | .eof => "Eof"
  | .newline => "Newline"
  | _ => "`" ++ t.text ++ "`"

/-- Whether a reader sees the token: all but line feeds and the end of the text
are visible. -/
def isVisible (t : Token) : Bool := t.kind != .newline && t.kind != .eof

/-- The end of the text, before offset `offset`. -/
def atEnd (offset : Nat) (position : Position) : Token :=
  ⟨.eof, "", .empty offset, position, false⟩

/-- The position right after the token. -/
def positionAfter (t : Token) : Position :=
  if t.kind = .newline then ⟨t.start.line + 1, 1⟩
  else ⟨t.start.line, t.start.column + Int32.ofNat t.span.length⟩

/-- The end of the text that stands right after the last of the tokens. -/
def endAfter (ts : List Token) : Token :=
  match ts.getLast? with
  | some t => atEnd t.span.stop t.positionAfter
  | none => atEnd 0 .start

end Token
end AssignLang
