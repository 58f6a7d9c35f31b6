/-
# Reading tokens from a text

A `Lexer` takes the characters of a text one after the other. It may look at one
character more than it passed, and counts what it passed in characters, in
bytes, and in lines and columns: characters are what spans are given in, bytes
are what texts are cut out by. `Lexer.next` passes the blanks and then one
lexeme; at the end of the text it gives the end token, as often as it is asked.
A character that starts no lexeme is a diagnostic, and reading goes on after it.
`tokenize` wants every result to be a token and stops at the first that is none.

Key definitions: `Place`, `Lexer`, `Lexer.skip`, `Lexer.next`, `Lexer.results`,
`tokenize`.
Key theorems: `Lexer.left_next_lt`.
-/
import AssignLang.Token.Lexeme
import AssignLang.Diagnostic

namespace AssignLang

/-- How far a text was passed. -/
structure Place where
  /-- The number of characters before the place. -/
  index : Nat
  /-- The number of bytes before the place. -/
  byte : Nat
  position : Position
  deriving DecidableEq, Repr

namespace Place

/-- The start of a text. -/
def start : Place := ⟨0, 0, .start⟩

/-- The place one character later. -/
def after (p : Place) (c : Char) : Place :=
  ⟨p.index + 1, p.byte + c.utf8Size, p.position.after c⟩

end Place

/-- What is known of a text while it is read. -/
structure Lexer where
  source : String
  /-- The characters that were not taken from the text. -/
  chars : List Char
  /-- A character that was taken to look at it and is not passed yet. -/
  ahead : Option Char
  /-- The start of the token at hand. -/
  start : Place
  /-- How far the text was passed. -/
  here : Place
  /-- Whether blanks stand right before the token at hand. -/
  spaced : Bool

namespace Lexer

/-- Nothing of the text was read. -/
def ofString (source : String) : Lexer :=
  ⟨source, source.toList, none, .start, .start, false⟩

/-- The next character, and what is known when it is passed. -/
def consume (l : Lexer) : Option (Char × Lexer) :=
  match l.ahead with
  | some c => some (c, { l with ahead := none, here := l.here.after c })
  | none =>
    match l.chars with
    | c :: cs => some (c, { l with chars := cs, here := l.here.after c })
    | [] => none

/-- Looks at the next character, which is then `ahead`. -/
def peek (l : Lexer) : Lexer :=
  match l.ahead, l.chars with
  | none, c :: cs => { l with ahead := some c, chars := cs }
  | _, _ => l

/-- Passes the next character. -/
def drop (l : Lexer) : Lexer :=
  match l.consume with
  | some (_, l') => l'
  | none => l

/-- How many characters are left. -/
def left (l : Lexer) : Nat := l.ahead.toList.length + l.chars.length

theorem left_peek (l : Lexer) : l.peek.left = l.left := by
  unfold peek left
  split
  · next ha hc => simp [ha, hc, Nat.add_comm]
  · rfl

theorem left_of_consume {l l' : Lexer} {c : Char} (h : l.consume = some (c, l')) :
    l'.left + 1 = l.left := by
  unfold consume at h
  unfold left
  split at h
  · next ha =>
    cases h
    simp [ha, Nat.add_comm]
  · next ha =>
    split at h
    · next hc =>
      cases h
      simp [ha, hc]
    · cases h

theorem drop_of_ahead {l : Lexer} {c : Char} (h : l.ahead = some c) :
    l.drop = { l with ahead := none, here := l.here.after c } := by
  rw [drop, consume, h]

theorem left_drop_lt {l : Lexer} {c : Char} (h : l.ahead = some c) : l.drop.left < l.left := by
  rw [drop_of_ahead h, left, left, h]
  simp

/-- Passes the characters that a test allows. `marks` says that they count as
blanks before the token at hand. -/
def skip (p : Char → Bool) (marks : Bool) (l : Lexer) : Lexer :=
  match _h : l.peek.ahead with
  | some c =>
    if p c then skip p marks { l.peek.drop with spaced := l.spaced || marks } else l.peek
  | none => l.peek
termination_by l.left
decreasing_by
  have hlt := left_drop_lt _h
  rw [left_peek] at hlt
  exact hlt

/-- The text from the start of the token at hand up to here. -/
def text (l : Lexer) : String := String.Pos.Raw.extract l.source ⟨l.start.byte⟩ ⟨l.here.byte⟩

/-- The characters from the start of the token at hand up to here. -/
def span (l : Lexer) : Span := ⟨l.start.index, l.here.index⟩

/-- The token at hand, which ends here. -/
def token (l : Lexer) (kind : Kind) : Token :=
  ⟨kind, l.text, l.span, l.start.position, l.spaced⟩

/-- The diagnostic about what was read of the token at hand. -/
def fault (l : Lexer) (cause : Cause) : Diagnostic := ⟨cause, l.span, l.start.position⟩

/-- The rest of a number, after its first digit. A point belongs to it even if no
digit follows. -/
def scanNumber (l : Lexer) : Except Diagnostic Token × Lexer :=
  let l := (l.skip Char.isDigit false).peek
  if l.ahead = some '.' then
    let l := l.drop.skip Char.isDigit false
    (.ok (l.token .literalReal), l)
  else (.ok (l.token .literalInt), l)

/-- The rest of a word, after its first letter. A word that is no keyword must be
a name. -/
def scanWord (l : Lexer) : Except Diagnostic Token × Lexer :=
  let l := l.skip Char.isAlphanum false
  match Kind.keyword? l.text with
  | some kind => (.ok (l.token kind), l)
  | none =>
    if isName l.text then (.ok (l.token .identifier), l)
    else (.error (l.fault (.malformedName l.text)), l)

/-- What starts with the character `c`, which was passed. -/
def scan (l : Lexer) (c : Char) : Except Diagnostic Token × Lexer :=
  match Kind.ofSign? c with
  | some kind => (.ok (l.token kind), l)
  | none =>
    if c.isDigit then l.scanNumber
    else if c.isAlphanum then l.scanWord
    else (.error (l.fault (.unexpectedCharacter c)), l)

/-- Passes the blanks, and a token starts here. -/
def beginToken (l : Lexer) : Lexer :=
  let l := skip isBlank true { l with spaced := false }
  { l with start := l.here }

/-- The next token or diagnostic, and what is known after it. -/
def next (l : Lexer) : Except Diagnostic Token × Lexer :=
  match l.beginToken.consume with
  | some (c, l) => l.scan c
  | none =>
    let l := { l.beginToken with spaced := false }
    (.ok (l.token .eof), l)

/-- Whether a result is the end of the text. -/
def isEnd : Except Diagnostic Token → Bool
  | .ok t => t.kind == .eof
  | .error _ => false

theorem left_skip_le (p : Char → Bool) (marks : Bool) (l : Lexer) :
    (l.skip p marks).left ≤ l.left := by
  fun_induction skip p marks l with
  | case1 l c h hp ih =>
    have hlt := left_drop_lt h
    rw [left_peek] at hlt
    exact Nat.le_trans ih (Nat.le_of_lt hlt)
  | case2 l c h hp => exact Nat.le_of_eq (left_peek l)
  | case3 l h => exact Nat.le_of_eq (left_peek l)

theorem left_scanNumber_le (l : Lexer) : l.scanNumber.2.left ≤ l.left := by
  have hpeek := left_peek (l.skip Char.isDigit false)
  have hskip := left_skip_le Char.isDigit false l
  unfold scanNumber
  dsimp only
  split
  · next hpoint =>
    have hlt := left_drop_lt hpoint
    have hrest := left_skip_le Char.isDigit false (l.skip Char.isDigit false).peek.drop
    dsimp only
    omega
  · dsimp only
    omega

theorem scanWord_snd (l : Lexer) : l.scanWord.2 = l.skip Char.isAlphanum false := by
  unfold scanWord
  dsimp only
  split
  · rfl
  · split <;> rfl

theorem left_scan_le (l : Lexer) (c : Char) : (l.scan c).2.left ≤ l.left := by
  unfold scan
  split
  · exact Nat.le_refl _
  · split
    · exact left_scanNumber_le l
    · split
      · rw [scanWord_snd]
        exact left_skip_le _ _ l
      · exact Nat.le_refl _

/-- Every result but the end of the text takes characters off. -/
theorem left_next_lt (l : Lexer) (h : isEnd l.next.1 = false) : l.next.2.left < l.left := by
  have hbegin : l.beginToken.left ≤ l.left := left_skip_le isBlank true { l with spaced := false }
  unfold next at h ⊢
  split at h
  · next c l' hc =>
    have hleft := left_of_consume hc
    have hscan := left_scan_le l' c
    omega
  · cases h

/-- All results from here on, up to and including the end of the text. -/
def results (l : Lexer) : List (Except Diagnostic Token) :=
  let found := l.next
  if _h : isEnd found.1 = true then [found.1] else found.1 :: found.2.results
termination_by l.left
decreasing_by exact left_next_lt l (Bool.eq_false_iff.mpr _h)

theorem results_of_isEnd {l : Lexer} (h : isEnd l.next.1 = true) : l.results = [l.next.1] := by
  rw [results]
  simp [h]

theorem results_of_not_isEnd {l : Lexer} (h : isEnd l.next.1 = false) :
    l.results = l.next.1 :: l.next.2.results := by
  rw [results]
  simp [h]

end Lexer

/-- The tokens of a text up to and including its end, or the first
diagnostic. -/
def tokenize (source : String) : Except Diagnostic (List Token) :=
  (Lexer.ofString source).results.mapM id

end AssignLang
