/-
# What the tokens of a text are

The tokens of a text are lexemes of their kinds, but for the end of the text. A text
that has no tokens has a character that starts none, and nothing else is reported
of it. A text has tokens exactly if a run on it returns them.

Key theorems: `tokenize_eq_ok_iff_run`, `exists_front_of_tokenize`,
`isLexeme_of_tokenize`, `unexpectedCharacter_of_tokenize`.
-/
import AssignLang.Proofs.Lexing.Seam

namespace AssignLang

/-- The tokens of a text are what a run on it returns. -/
theorem tokenize_eq_ok_iff_run {source : String} {ts : List Token} :
    tokenize source = .ok ts ↔ Run source.toList 0 (ts.map .ok) := by
  have hrun := (Lexer.at_ofString source).run_results
  rw [tokenize_eq_ok_iff]
  constructor
  · intro h
    rwa [h] at hrun
  · exact hrun.eq

/-- Tokens whose results end with the end of a text end with its token. -/
theorem exists_front_of_map {cs : List Char} {ts : List Token}
    {rs : List (Except Diagnostic Token)} (h : ts.map .ok = rs ++ [endOf cs]) :
    ∃ front, ts = front ++ [.atEnd cs.length (positionAt cs cs.length)] ∧ rs = front.map .ok := by
  obtain ⟨front, last, rfl, rfl, hlast⟩ := List.map_eq_append_iff.mp h
  obtain ⟨e, rfl, he⟩ := List.map_eq_singleton_iff.mp hlast
  obtain rfl := Except.ok.inj he
  exact ⟨front, rfl, rfl⟩

/-- The tokens of a text are lexemes and the end of the text. -/
theorem exists_front_of_tokenize {source : String} {ts : List Token}
    (h : tokenize source = .ok ts) :
    ∃ front, (∀ t ∈ front, t.kind ≠ .eof) ∧ ts = front ++
      [.atEnd source.toList.length (positionAt source.toList source.toList.length)] := by
  obtain ⟨rs, hrs, hfront⟩ := (tokenize_eq_ok_iff_run.mp h).exists_front
  obtain ⟨front, rfl, rfl⟩ := exists_front_of_map hrs
  refine ⟨front, fun t ht => ?_, rfl⟩
  simpa [Lexer.isEnd] using hfront (.ok t) (List.mem_map_of_mem ht)

/-- Every token but the end of the text is a lexeme of its kind. -/
theorem isLexeme_of_tokenize {source : String} {ts : List Token} (h : tokenize source = .ok ts)
    {t : Token} (ht : t ∈ ts) (hk : t.kind ≠ .eof) : IsLexeme t.text.toList t.kind := by
  have hrun := (Lexer.at_ofString source).run_results
  rw [tokenize_eq_ok_iff.mp h] at hrun
  obtain ⟨i, j, -, hcall⟩ := hrun.exists_call_of_zero _ (List.mem_map_of_mem ht)
  exact (hcall.longestMatch.longest t ⟨rfl, hk⟩).1

/-- A text without tokens is reported for a character. -/
theorem unexpectedCharacter_of_tokenize {source : String} {d : Diagnostic}
    (h : tokenize source = .error d) : ∃ c, d.cause = .unexpectedCharacter c := by
  obtain ⟨ts, rest, hresults⟩ := tokenize_eq_error_iff.mp h
  have hmem : Except.error d ∈ (Lexer.ofString source).results := by simp [hresults]
  obtain ⟨i, j, -, hcall⟩ := (Lexer.at_ofString source).run_results.exists_call_of_zero _ hmem
  cases hcall with
  | @unexpected m c hgap hc hx => exact ⟨c, rfl⟩

end AssignLang
