/-
# What tokens are made of

The signs that are tokens by themselves, the keywords, and the form of a name: a
letter followed by letters and digits. Letters and digits are those of ASCII; a
character outside it belongs to no token.

Key definitions: `isBlank`, `isName`, `Kind.keyword?`, `Kind.ofSign?`.
Key theorems: `Kind.ofSign?_eq_some_iff`, `Kind.keyword?_eq_some_iff`.
-/
import AssignLang.Token.Basic

namespace AssignLang

/-- The characters between tokens that belong to none. A line feed is not among
them. -/
def isBlank (c : Char) : Bool := c == ' ' || c == '\t' || c == '\r'

/-- A letter followed by letters and digits. The keywords have this form too. -/
def isName (text : String) : Bool :=
  match text.toList with
  | [] => false
  | c :: cs => c.isAlpha && cs.all Char.isAlphanum

namespace Kind

/-- The keywords; case matters. -/
def keywords : List (String × Kind) :=
  [("begin", beginWord), ("end", endWord), ("real", realWord), ("integer", integerWord)]

/-- The signs that are tokens by themselves. -/
def signs : List (Char × Kind) :=
  [('\n', newline), ('=', assign), (':', colon), ('(', parenLeft), (')', parenRight),
   ('[', bracketLeft), (']', bracketRight), ('+', additive), ('-', additive),
   ('*', multiplicative), ('/', multiplicative), ('^', exponentiation)]

/-- The kind of a keyword. -/
def keyword? (text : String) : Option Kind := keywords.lookup text

/-- The kind of a sign. -/
def ofSign? (c : Char) : Option Kind := signs.lookup c

theorem keyword?_eq_some_iff {text : String} {k : Kind} :
    keyword? text = some k ↔ (text, k) ∈ keywords := by
  constructor
  · intro h
    obtain ⟨l, r, hl, -⟩ := List.lookup_eq_some_iff.mp h
    simp [hl]
  · have table : ∀ p ∈ keywords, keyword? p.1 = some p.2 := by decide
    exact table (text, k)

theorem ofSign?_eq_some_iff {c : Char} {k : Kind} : ofSign? c = some k ↔ (c, k) ∈ signs := by
  constructor
  · intro h
    obtain ⟨l, r, hl, -⟩ := List.lookup_eq_some_iff.mp h
    simp [hl]
  · have table : ∀ p ∈ signs, ofSign? p.1 = some p.2 := by decide
    exact table (c, k)

end Kind

/-- The signs of addition and subtraction. -/
def isAdditive (c : Char) : Bool := Kind.ofSign? c == some .additive

/-- The signs of multiplication and division. -/
def isMultiplicative (c : Char) : Bool := Kind.ofSign? c == some .multiplicative

/-- The sign of a power. -/
def isExponentiation (c : Char) : Bool := Kind.ofSign? c == some .exponentiation

end AssignLang
