/-
# Where a thing stands in a source text

A `Span` is a half-open range of character offsets; a `Position` is the line
and column a reader counts. The two are kept side by side: spans cut text out
of the source, positions are what a diagnostic prints. Lines and columns are
32-bit words and wrap, offsets do not.

Key definitions: `Position.after`, `Position.afterChars`, `Span.length`.
Key theorems: `Position.afterChars_append`.
-/
namespace AssignLang

/-- A line and a column, both counted from 1. -/
structure Position where
  line : Int32
  column : Int32
  deriving DecidableEq, Repr

namespace Position

/-- The first column of the first line. -/
def start : Position := ⟨1, 1⟩

/-- The position one character later: a line feed opens the next line, every
other character takes one column. -/
def after (p : Position) (c : Char) : Position :=
  if c = '\n' then ⟨p.line + 1, 1⟩ else ⟨p.line, p.column + 1⟩

/-- The position after a run of characters. -/
def afterChars (p : Position) (cs : List Char) : Position := cs.foldl after p

@[simp] theorem afterChars_nil (p : Position) : p.afterChars [] = p := rfl

@[simp] theorem afterChars_cons (p : Position) (c : Char) (cs : List Char) :
    p.afterChars (c :: cs) = (p.after c).afterChars cs := rfl

@[simp] theorem afterChars_append (p : Position) (cs ds : List Char) :
    p.afterChars (cs ++ ds) = (p.afterChars cs).afterChars ds :=
  List.foldl_append

end Position

/-- The characters from offset `first` up to, but not including, offset
`stop`. -/
structure Span where
  first : Nat
  stop : Nat
  deriving DecidableEq, Repr

namespace Span

/-- The span that holds no character and stands before offset `n`. -/
def empty (n : Nat) : Span := ⟨n, n⟩

/-- How many characters the span holds. -/
def length (s : Span) : Nat := s.stop - s.first

/-- Whether the span holds no character. -/
def isEmpty (s : Span) : Bool := s.first == s.stop

/-- The characters of `text` that the span covers. -/
def cut (s : Span) (text : List Char) : List Char := (text.drop s.first).take s.length

end Span

end AssignLang
