/-
# From source text to value

The three stages in a row: tokens, program, run. A source text that is no
program leaves the scope as it is.

Key definitions: `readProgram`, `compileWith`, `compile`.
Key theorems: `readProgram_eq_ok_iff`, `compileWith_of_ok`, `compileWith_of_error`.
-/
import AssignLang.Token.Lexer
import AssignLang.Program.Reading
import AssignLang.Program.Run

namespace AssignLang

/-- The program that a source text writes. -/
def readProgram (source : String) : Except Diagnostic Program := do
  let tokens ← tokenize source
  parse tokens

/-- Reads a source text and runs it in a scope. -/
def compileWith (source : String) (s : Scope) : Except Diagnostic Value × Scope :=
  match readProgram source with
  | .ok p => p.run s
  | .error d => (.error d, s)

/-- The value of a source text in a scope that binds nothing. -/
def compile (source : String) : Except Diagnostic Value := (compileWith source .empty).1

theorem readProgram_of_ok {source : String} {ts : List Token} (h : tokenize source = .ok ts) :
    readProgram source = parse ts := by
  rw [readProgram, h]
  rfl

theorem readProgram_of_error {source : String} {d : Diagnostic} (h : tokenize source = .error d) :
    readProgram source = .error d := by
  rw [readProgram, h]
  rfl

theorem readProgram_eq_ok_iff {source : String} {p : Program} :
    readProgram source = .ok p ↔ ∃ ts, tokenize source = .ok ts ∧ parse ts = .ok p := by
  cases h : tokenize source with
  | ok ts => simp [readProgram_of_ok h]
  | error d => simp [readProgram_of_error h]

/-- A text whose program passes a test has tokens and a program. -/
theorem exists_of_any_readProgram (source : String) (test : Program → Bool)
    (h : (readProgram source).toOption.any test = true) :
    ∃ ts p, (tokenize source = .ok ts ∧ parse ts = .ok p) ∧ test p = true := by
  cases hp : readProgram source with
  | error d =>
    rw [hp] at h
    cases h
  | ok p =>
    obtain ⟨ts, hts⟩ := readProgram_eq_ok_iff.mp hp
    rw [hp] at h
    exact ⟨ts, p, hts, h⟩

theorem compileWith_of_ok {source : String} {p : Program} (h : readProgram source = .ok p)
    (s : Scope) : compileWith source s = p.run s := by
  rw [compileWith, h]

theorem compileWith_of_error {source : String} {d : Diagnostic}
    (h : readProgram source = .error d) (s : Scope) : compileWith source s = (.error d, s) := by
  rw [compileWith, h]

end AssignLang
