/-
# The lines of tokens

A token says the line it begins on: that of its first character, counted in the text,
as far as 32 bits count. Blanks hold no line feed, and of the lexemes only the line
feed is one. So the line goes up by one behind the token of a line feed, and nowhere
else.

Key definitions: `Token.lineIn`, `breakCount`, `LinesFrom`.
Key theorems: `IsLexeme.count_break`, `Run.linesFrom`, `linesFrom_of_tokenize`,
`line_of_tokenize`.
-/
import AssignLang.Proofs.Lexing.Tokenize

namespace AssignLang

/-! ### Lines along tokens -/

/-- The line of the text that the token begins on, one more than the line feeds before
it. -/
def Token.lineIn (source : String) (t : Token) : Nat := lineOf (source.toList.take t.span.first)

/-- How many of the tokens are line feeds. -/
def breakCount (ts : List Token) : Nat := ts.countP fun t => t.kind == .newline

/-- The first token is on line `n`, and behind every line feed the line goes up by
one. -/
def LinesFrom (line : Token → Nat) : Nat → List Token → Prop
  | _, [] => True
  | n, t :: ts => line t = n ∧ LinesFrom line (n + breakCount [t]) ts

theorem breakCount_singleton (t : Token) :
    breakCount [t] = if t.kind = .newline then 1 else 0 := by
  simp [breakCount, List.countP_cons]

theorem breakCount_append (v w : List Token) :
    breakCount (v ++ w) = breakCount v + breakCount w := List.countP_append

theorem breakCount_eq_zero {v : List Token} (hv : ∀ t ∈ v, t.kind ≠ .newline) :
    breakCount v = 0 := by
  rw [breakCount, List.countP_eq_zero]
  simpa using hv

theorem breakCount_eq_length {v : List Token} (hv : ∀ t ∈ v, t.kind = .newline) :
    breakCount v = v.length := by
  rw [breakCount, List.countP_eq_length]
  simpa using hv

section
variable {line : Token → Nat}

theorem linesFrom_append : ∀ {v w : List Token} {n : Nat},
    LinesFrom line n (v ++ w) ↔ LinesFrom line n v ∧ LinesFrom line (n + breakCount v) w
  | [], w, n => by simp [LinesFrom, breakCount]
  | t :: v, w, n => by
    have hcount : n + breakCount (t :: v) = n + breakCount [t] + breakCount v := by
      rw [← List.singleton_append, breakCount_append, Nat.add_assoc]
    rw [List.cons_append, LinesFrom, LinesFrom, linesFrom_append, and_assoc, hcount]

/-- Tokens with no line feed among them are on one line. -/
theorem LinesFrom.eq_of_unbroken : ∀ {v : List Token} {n : Nat}, LinesFrom line n v →
    (∀ t ∈ v, t.kind ≠ .newline) → ∀ t ∈ v, line t = n
  | [], _, _, _ => by simp
  | t :: v, n, h, hv => by
    obtain ⟨ht, hrest⟩ := List.forall_mem_cons.mp hv
    have hsame := h.2
    rw [breakCount_eq_zero (by simpa using ht), Nat.add_zero] at hsame
    exact List.forall_mem_cons.mpr ⟨h.1, hsame.eq_of_unbroken hrest⟩

end

/-! ### Lines along a text -/

/-- Only the line feed has its kind. -/
theorem IsLexeme.eq_break {x : List Char} (h : IsLexeme x .newline) : x = ['\n'] := by
  generalize hk : Kind.newline = k at h
  cases h with
  | sign hs =>
    cases hs <;> first | rfl | cases hk
  | whole hne hds => cases hk
  | real hne hds hes => cases hk
  | keyword hw => cases hw <;> cases hk
  | name hc hcs hname => cases hk

/-- The line feeds in a lexeme: the line feed itself is one. -/
theorem IsLexeme.count_break {x : List Char} {k : Kind} (h : IsLexeme x k) :
    x.count '\n' = if k = .newline then 1 else 0 := by
  split
  · next hk =>
    subst hk
    rw [h.eq_break]
    rfl
  · next hk =>
    refine List.count_eq_zero.mpr fun hmem => hk ?_
    have hbreak : IsLexeme ['\n'] k := h.eq_of_break_mem hmem ▸ h
    exact hbreak.kind_eq (.sign .newline)

section
variable {cs x : List Char} {n m : Nat} {k : Kind}

theorem lineOf_append (u v : List Char) : lineOf (u ++ v) = lineOf u + v.count '\n' := by
  rw [lineOf, lineOf, List.count_append, Nat.add_assoc]

/-- Blanks stay on the line. -/
theorem Gap.lineOf_eq (h : Gap cs n m) : lineOf (cs.take m) = lineOf (cs.take n) := by
  obtain ⟨g, hg, hdrop⟩ := h.exists_blanks
  have hnone : g.count '\n' = 0 := by
    refine List.count_eq_zero.mpr fun hmem => ?_
    have hblank := hg _ hmem
    cases hblank
  have hall : cs.take n ++ (g ++ cs.drop m) = cs.take m ++ cs.drop m := by
    rw [← hdrop, List.take_append_drop, List.take_append_drop]
  have hcount := congrArg lineOf hall
  rw [lineOf_append, lineOf_append, List.count_append, hnone] at hcount
  omega

/-- Behind a lexeme the line is that before it, and one more behind a line feed. -/
theorem Longest.lineOf_eq (h : Longest (cs.drop m) x k) :
    lineOf (cs.take (m + x.length)) = lineOf (cs.take m) + if k = .newline then 1 else 0 := by
  obtain ⟨w, hw⟩ := h.2.1
  rw [List.take_add, ← hw, List.take_left, lineOf_append, h.1.count_break]

end

/-- **The tokens of a run go up a line behind every line feed**, from the line where the
run starts. -/
theorem Run.linesFrom {cs : List Char} {n : Nat} {rs : List (Except Diagnostic Token)}
    (h : Run cs n rs) : ∀ {ts : List Token}, rs = ts.map .ok →
      LinesFrom (fun t => lineOf (cs.take t.span.first)) (lineOf (cs.take n)) ts := by
  induction h with
  | @last n j r hcall hr =>
    intro ts hts
    obtain ⟨t, rfl, rfl⟩ := List.map_eq_singleton_iff.mp hts.symm
    exact ⟨hcall.gap.lineOf_eq, trivial⟩
  | @cons n j r rs hcall hr hrs ih =>
    intro ts hts
    obtain ⟨t, rest, rfl, rfl, hrest⟩ := List.map_eq_cons_iff.mp hts.symm
    have hafter := ih hrest.symm
    refine ⟨hcall.gap.lineOf_eq, ?_⟩
    cases hcall with
    | finish hgap => cases hr
    | @token m x k hgap hx =>
      rw [hx.lineOf_eq, hgap.lineOf_eq] at hafter
      rw [breakCount_singleton]
      exact hafter

/-! ### Lines of the tokens of a text -/

section
variable {source : String} {ts : List Token} (h : tokenize source = .ok ts)
include h

theorem linesFrom_of_tokenize : LinesFrom (Token.lineIn source) 1 ts :=
  (tokenize_eq_ok_iff_run.mp h).linesFrom rfl

/-- **A token says the line that it begins on**, as far as 32 bits count. -/
theorem line_of_tokenize {t : Token} (ht : t ∈ ts) :
    t.start.line = Int32.ofNat (t.lineIn source) := by
  have hrun := tokenize_eq_ok_iff_run.mp h
  obtain ⟨i, j, -, hcall⟩ := hrun.exists_call_of_zero _ (List.mem_map_of_mem ht)
  have hposition : t.start = positionAt source.toList t.span.first := hcall.positionOf_eq
  rw [hposition, positionAt, afterChars_start]
  rfl

end

theorem Token.lineIn_le (source : String) (t : Token) : t.lineIn source ≤ lineOf source.toList := by
  have hle := (List.take_sublist t.span.first source.toList).count_le '\n'
  rw [lineIn, lineOf, lineOf]
  omega

end AssignLang
