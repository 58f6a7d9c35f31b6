/-
# White space

The characters with the Unicode property White_Space, and cutting them off the
end of a text.

Key definitions: `Text.isWhiteSpace`, `Text.trimEnd`.
Key theorems: `Text.trimEnd_append_of_all`, `Text.trimEnd_append_rest`.
-/
import AssignLang.Text.CharRange

namespace AssignLang
namespace Text

/-- The property White_Space. -/
def whiteSpaceRanges : List CharRange :=
  [(0x0009, 0x000D), (0x0020, 0x0020), (0x0085, 0x0085), (0x00A0, 0x00A0), (0x1680, 0x1680),
   (0x2000, 0x200A), (0x2028, 0x2029), (0x202F, 0x202F), (0x205F, 0x205F), (0x3000, 0x3000)]

/-- The character is white space: a blank of any width, or a line or paragraph
break. -/
def isWhiteSpace (c : Char) : Bool := CharRange.covers whiteSpaceRanges c

/-- The characters without the white space at their end. -/
def trimEndChars (cs : List Char) : List Char := (cs.reverse.dropWhile isWhiteSpace).reverse

/-- The text without the white space at its end. -/
def trimEnd (text : String) : String := String.ofList (trimEndChars text.toList)

/-- What is cut off is white space, and it is the end of the text. -/
theorem trimEnd_append_rest (cs : List Char) :
    ∃ w, (∀ c ∈ w, isWhiteSpace c = true) ∧ trimEndChars cs ++ w = cs := by
  refine ⟨(cs.reverse.takeWhile isWhiteSpace).reverse, ?_, ?_⟩
  · intro c hc
    exact List.all_eq_true.mp List.all_takeWhile c (List.mem_reverse.mp hc)
  · rw [trimEndChars, ← List.reverse_append, List.takeWhile_append_dropWhile, List.reverse_reverse]

/-- White space at the end makes no difference. -/
theorem trimEnd_append_of_all (cs w : List Char) (h : ∀ c ∈ w, isWhiteSpace c = true) :
    trimEndChars (cs ++ w) = trimEndChars cs := by
  rw [trimEndChars, List.reverse_append, List.dropWhile_append_of_pos, trimEndChars]
  intro c hc
  exact h c (List.mem_reverse.mp hc)

end Text
end AssignLang
