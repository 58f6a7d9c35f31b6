/-
# Every call takes the longest lexeme

A call that starts, after the blanks, at a lexeme returns the longest one there;
a call that starts at another character returns that character; and no call
finds a word that is no name. `tokenize` returns the results up to the end if all
of them are tokens, and the first diagnostic otherwise.

Key definitions: `IsToken`, `IsUnexpected`, `LongestMatch`.
Key theorems: `Call.longestMatch`, `tokenize_eq_ok_iff`, `tokenize_eq_error_iff`,
`calls_longestMatch`.
-/
import AssignLang.Proofs.Lexing.Calls

namespace AssignLang

/-- The result is a token, and not the end of the text. -/
def IsToken (r : Except Diagnostic Token) (t : Token) : Prop := r = .ok t ∧ t.kind ≠ .eof

/-- The result is a diagnostic about the character of the text where it stands. -/
def IsUnexpected (cs : List Char) (r : Except Diagnostic Token) : Prop :=
  ∃ d c, r = .error d ∧ d.cause = .unexpectedCharacter c ∧ cs[d.span.first]? = some c

/-- The result of a call is what the longest match says. -/
structure LongestMatch (cs : List Char) (r : Except Diagnostic Token) : Prop where
  /-- It is a token exactly where a lexeme starts. -/
  token_iff : (∃ t, IsToken r t) ↔ StartsLexeme (cs.drop (spanOf r).first)
  /-- The token is the longest lexeme there. -/
  longest : ∀ t, IsToken r t → Longest (cs.drop t.span.first) t.text.toList t.kind
  /-- Its kind is the only one that its text has. -/
  kind_iff : ∀ t k, IsToken r t → (IsLexeme t.text.toList k ↔ k = t.kind)
  /-- It is a diagnostic about a character exactly where none starts. -/
  unexpected_iff : IsUnexpected cs r ↔
    (spanOf r).first < cs.length ∧ ¬ StartsLexeme (cs.drop (spanOf r).first)
  /-- It is no diagnostic about a name. -/
  ne_malformedName : ∀ d name, r = .error d → d.cause ≠ .malformedName name

theorem not_isToken_endOf {cs : List Char} (t : Token) : ¬ IsToken (endOf cs) t := by
  rintro ⟨ht, hk⟩
  cases ht
  exact hk rfl

theorem not_isToken_error {d : Diagnostic} (t : Token) : ¬ IsToken (.error d) t := by
  rintro ⟨ht, -⟩
  cases ht

theorem not_isUnexpected_ok {cs : List Char} (t : Token) : ¬ IsUnexpected cs (.ok t) := by
  rintro ⟨d, c, hd, -⟩
  cases hd

theorem LongestMatch.of_endOf (cs : List Char) : LongestMatch cs (endOf cs) := by
  have hnone : ¬ StartsLexeme (cs.drop (spanOf (endOf cs)).first) := by
    show ¬ StartsLexeme (cs.drop cs.length)
    rw [List.drop_length]
    exact not_startsLexeme_nil
  refine ⟨?_, ?_, ?_, ?_, ?_⟩
  · exact ⟨fun ⟨t, ht⟩ => absurd ht (not_isToken_endOf t), fun hs => absurd hs hnone⟩
  · exact fun t ht => absurd ht (not_isToken_endOf t)
  · exact fun t k ht => absurd ht (not_isToken_endOf t)
  · exact ⟨fun h => absurd h (not_isUnexpected_ok _), fun h => absurd h.1 (Nat.lt_irrefl _)⟩
  · intro d name hd
    cases hd

theorem LongestMatch.of_longest {cs x : List Char} {k : Kind} {m : Nat} {start : Position}
    {spaced : Bool} (hx : Longest (cs.drop m) x k) :
    LongestMatch cs (.ok ⟨k, String.ofList x, ⟨m, m + x.length⟩, start, spaced⟩) := by
  have hstarts : StartsLexeme (cs.drop m) := ⟨x, k, hx.1, hx.2.1⟩
  refine ⟨?_, ?_, ?_, ?_, ?_⟩
  · exact ⟨fun _ => hstarts, fun _ => ⟨_, rfl, hx.1.kind_ne_eof⟩⟩
  · rintro t ⟨ht, -⟩
    cases ht
    rwa [String.toList_ofList]
  · rintro t j ⟨ht, -⟩
    cases ht
    rw [String.toList_ofList]
    exact ⟨fun hj => hj.kind_eq hx.1, fun hj => hj ▸ hx.1⟩
  · exact ⟨fun h => absurd h (not_isUnexpected_ok _), fun h => absurd hstarts h.2⟩
  · intro d name hd
    cases hd

theorem LongestMatch.of_not_startsLexeme {cs : List Char} {c : Char} {m stop : Nat}
    {position : Position} (hc : cs[m]? = some c) (hm : ¬ StartsLexeme (cs.drop m)) :
    LongestMatch cs (.error ⟨.unexpectedCharacter c, ⟨m, stop⟩, position⟩) := by
  obtain ⟨hlt, -⟩ := List.getElem?_eq_some_iff.mp hc
  refine ⟨?_, ?_, ?_, ?_, ?_⟩
  · exact ⟨fun ⟨t, ht⟩ => absurd ht (not_isToken_error t), fun hs => absurd hs hm⟩
  · exact fun t ht => absurd ht (not_isToken_error t)
  · exact fun t k ht => absurd ht (not_isToken_error t)
  · exact ⟨fun _ => ⟨hlt, hm⟩, fun _ => ⟨_, c, rfl, rfl, hc⟩⟩
  · intro d name hd
    cases hd
    simp

theorem Call.longestMatch {cs : List Char} {n j : Nat} {r : Except Diagnostic Token}
    (h : Call cs n r j) : LongestMatch cs r := by
  cases h with
  | finish h => exact .of_endOf cs
  | token h hx => exact .of_longest hx
  | unexpected h hc hx => exact .of_not_startsLexeme hc hx

/-! ### All tokens or the first diagnostic -/

/-- All results are tokens, or there is a first diagnostic. -/
theorem exists_tokens_or_first_error : ∀ rs : List (Except Diagnostic Token),
    (∃ ts : List Token, rs = ts.map .ok) ∨
      ∃ (ts : List Token) (d : Diagnostic) (rest : List (Except Diagnostic Token)),
        rs = ts.map .ok ++ .error d :: rest
  | [] => .inl ⟨[], rfl⟩
  | .error d :: rs => .inr ⟨[], d, rs, rfl⟩
  | .ok t :: rs => by
    rcases exists_tokens_or_first_error rs with ⟨ts, rfl⟩ | ⟨ts, d, rest, rfl⟩
    · exact .inl ⟨t :: ts, rfl⟩
    · exact .inr ⟨t :: ts, d, rest, rfl⟩

theorem mapM_tokens : ∀ ts : List Token,
    (ts.map (Except.ok (ε := Diagnostic))).mapM id = .ok ts
  | [] => rfl
  | t :: ts => by
    rw [List.map_cons, List.mapM_cons, mapM_tokens ts]
    rfl

theorem mapM_first_error (d : Diagnostic) (rest : List (Except Diagnostic Token)) :
    ∀ ts : List Token, (ts.map Except.ok ++ Except.error d :: rest).mapM id = Except.error d
  | [] => by
    rw [List.map_nil, List.nil_append, List.mapM_cons]
    rfl
  | t :: ts => by
    rw [List.map_cons, List.cons_append, List.mapM_cons, mapM_first_error d rest ts]
    rfl

/-- Tokens and diagnostics can be changed before they are collected or afterwards. -/
theorem mapM_map_results (f : Token → Token) (g : Diagnostic → Diagnostic) :
    ∀ rs : List (Except Diagnostic Token), (rs.map fun r => (r.map f).mapError g).mapM id =
      ((rs.mapM id).map (List.map f)).mapError g
  | [] => rfl
  | r :: rs => by
    rw [List.map_cons, List.mapM_cons, List.mapM_cons, mapM_map_results f g rs]
    cases r with
    | error d => rfl
    | ok t => cases rs.mapM id <;> rfl

theorem tokenize_eq_ok_iff {s : String} {ts : List Token} :
    tokenize s = .ok ts ↔ (Lexer.ofString s).results = ts.map .ok := by
  unfold tokenize
  constructor
  · intro h
    rcases exists_tokens_or_first_error (Lexer.ofString s).results with ⟨us, hus⟩ | ⟨us, d, rest, hus⟩
    · rw [hus, mapM_tokens] at h
      rw [hus, Except.ok.inj h]
    · rw [hus, mapM_first_error] at h
      cases h
  · intro h
    rw [h, mapM_tokens]

theorem tokenize_eq_error_iff {s : String} {d : Diagnostic} :
    tokenize s = .error d ↔ ∃ (ts : List Token) (rest : List (Except Diagnostic Token)),
      (Lexer.ofString s).results = ts.map .ok ++ .error d :: rest := by
  unfold tokenize
  constructor
  · intro h
    rcases exists_tokens_or_first_error (Lexer.ofString s).results with ⟨us, hus⟩ | ⟨us, e, rest, hus⟩
    · rw [hus, mapM_tokens] at h
      cases h
    · rw [hus, mapM_first_error] at h
      exact ⟨us, rest, Except.error.inj h ▸ hus⟩
  · rintro ⟨ts, rest, h⟩
    rw [h, mapM_first_error]

/-- **Leftmost longest match.** Every call on a text, however many come before
it, returns what the longest match says; and with the calls up to the first end
of the text, `tokenize` returns their tokens if no call returns a diagnostic, and
their first diagnostic otherwise. -/
theorem calls_longestMatch (s : String) :
    (∀ k, ∀ r ∈ (Lexer.ofString s).calls k, LongestMatch s.toList r) ∧
    ∃ k, UpToEnd ((Lexer.ofString s).calls k) ∧
      (∀ ts, tokenize s = .ok ts ↔ (Lexer.ofString s).calls k = ts.map .ok) ∧
      ∀ d, tokenize s = .error d ↔ ∃ (ts : List Token) (rest : List (Except Diagnostic Token)),
        (Lexer.ofString s).calls k = ts.map .ok ++ .error d :: rest := by
  have hat := Lexer.at_ofString s
  refine ⟨?_, (Lexer.ofString s).results.length, ?_⟩
  · intro k r hr
    obtain ⟨i, j, hcall⟩ := hat.call_of_mem_calls r hr
    exact hcall.longestMatch
  · rw [Lexer.calls_length_results]
    exact ⟨hat.run_results.upToEnd, fun ts => tokenize_eq_ok_iff, fun d => tokenize_eq_error_iff⟩

end AssignLang
