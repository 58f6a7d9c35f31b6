/-
# Values

A value is a number or null. Null is what a program without assignments gives;
a variable holds it only if it was put there from outside.

Key definitions: `Value`, `Value.number?`, `Value.text`.
-/
import AssignLang.Number.Style

namespace AssignLang

/-- What a variable holds and a program gives. Numbers are compared as
numbers. -/
inductive Value
  | number (x : Float)
  | null
  deriving BEq

namespace Value

/-- The number a value is. -/
def number? : Value → Option Float
  | number x => some x
  | null => none

/-- Whether a value is null. -/
def isNull : Value → Bool
  | number _ => false
  | null => true

/-- What sort of thing a value is, as a message names it. -/
def sort : Value → String
  | number _ => "number"
  | null => "null"

/-- The value as text. -/
def text : Value → String
  | number x => Style.plain.write x
  | null => "null"

end Value

end AssignLang
