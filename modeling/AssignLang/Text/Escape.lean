/-
# Quoting a character so that a reader sees it

A message that quotes source text escapes what would not show: seven
characters have a short escape after a backslash, and the unprintable ones and
those that join the character before them are written as their code point in
lower-case hexadecimal digits. In a longer text only the first character has
nothing before it to join, so only there does joining count.

Key definitions: `Text.escapeChar`, `Text.escape`.
-/
import AssignLang.Text.GraphemeExtend
import AssignLang.Text.Unprintable

namespace AssignLang
namespace Text

/-- The letter that stands for a character after a backslash. -/
def shortEscape? (c : Char) : Option Char :=
  if c = '\x00' then some '0'
  else if c = '\t' then some 't'
  else if c = '\r' then some 'r'
  else if c = '\n' then some 'n'
  else if c = '\'' ∨ c = '"' ∨ c = '\\' then some c
  else none

/-- A character by its code point. -/
def hexEscape (c : Char) : String :=
  "\\u\x7b" ++ String.ofList (Nat.toDigits 16 c.toNat) ++ "\x7d"

/-- One character of a quoted text; `joins` says whether a character that joins
the one before it is escaped. -/
def escapeWith (joins : Bool) (c : Char) : String :=
  match shortEscape? c with
  | some e => String.ofList ['\\', e]
  | none => if (joins && extendsGrapheme c) || isUnprintable c then hexEscape c else c.toString

/-- A character quoted by itself. -/
def escapeChar (c : Char) : String := escapeWith true c

/-- A quoted text. -/
def escape (text : List Char) : String :=
  match text with
  | [] => ""
  | c :: rest => escapeWith true c ++ String.join (rest.map (escapeWith false))

end Text
end AssignLang
