/-
# A text taken apart at a line feed

Nothing that is read goes over a line feed. So a text before a line feed is read as
it is by itself: where it would end, the line feed is read instead
(`Run.append_break`), and that a number or a word is not finished there, or that
blanks or an unknown character stand there, makes no difference. What is behind the
line feed is read as it is by itself, only further right and further down
(`Run.moved`). The results of two texts with a line feed between them are therefore
those of the first up to its end, the line feed, and those of the second, moved.

Key definitions: `Token.breakAfter`.
Key theorems: `Call.append_break`, `Run.append_break`, `exists_results_joined`,
`results_joined`.
-/
import AssignLang.Proofs.Lexing.Seam

namespace AssignLang

/-! ### The text before the line feed -/

section
variable {u x : List Char} {k : Kind} {n m j : Nat}

/-- A lexeme that starts before a line feed ends before it. -/
theorem IsLexeme.isPrefix_left {v : List Char} (h : IsLexeme x k) (hu : u ≠ [])
    (hpre : x <+: u ++ '\n' :: v) : x <+: u := by
  rcases List.prefix_concat_iff.mp (h.isPrefix_break hpre) with rfl | hx
  · have hbreak := h.eq_of_break_mem (by simp)
    exact absurd (by simpa using hbreak) hu
  · exact hx

theorem Longest.append_break (h : Longest u x k) (hu : u ≠ []) (v : List Char) :
    Longest (u ++ '\n' :: v) x k := by
  refine ⟨h.1, h.2.1.trans (List.prefix_append u _), ?_⟩
  rintro y i ⟨hy, hpre⟩
  exact h.2.2 y i ⟨hy, hy.isPrefix_left hu hpre⟩

theorem StartsLexeme.of_append_break {v : List Char} (h : StartsLexeme (u ++ '\n' :: v))
    (hu : u ≠ []) : StartsLexeme u := by
  obtain ⟨y, i, hy, hpre⟩ := h
  exact ⟨y, i, hy, hy.isPrefix_left hu hpre⟩

/-- Blanks before a line feed end where they end without it. -/
theorem Gap.append_break (h : Gap u n m) (v : List Char) : Gap (u ++ '\n' :: v) n m := by
  have hle := h.le_length
  refine ⟨h.le, ?_, ?_, ?_⟩
  · rw [List.length_append]
    omega
  · intro i c hi hc
    rw [List.getElem?_append_left (by omega)] at hc
    exact h.blank i c hi hc
  · intro c hc
    by_cases hm : m < u.length
    · rw [List.getElem?_append_left hm] at hc
      exact h.stop c hc
    · obtain rfl : m = u.length := by omega
      rw [List.getElem?_append_right (Nat.le_refl _), Nat.sub_self] at hc
      obtain rfl : '\n' = c := Option.some.inj hc
      rfl

theorem drop_ne_nil (hm : m < u.length) : u.drop m ≠ [] := by
  intro hnil
  have hlength := List.drop_eq_nil_iff.mp hnil
  omega

/-- **A call does not see the line feed after the text**, unless it is at the end. -/
theorem Call.append_break {r : Except Diagnostic Token} (h : Call u n r j)
    (hr : Lexer.isEnd r = false) (v : List Char) : Call (u ++ '\n' :: v) n r j := by
  cases h with
  | finish hgap => cases hr
  | @token m x k hgap hx =>
    have hm := hgap.le_length
    rw [← positionAt_append hm ('\n' :: v)]
    apply Call.token (hgap.append_break v)
    rw [drop_append_break hm]
    exact hx.append_break (drop_ne_nil hx.lt_length) v
  | @unexpected m c hgap hc hnone =>
    obtain ⟨hm, -⟩ := List.getElem?_eq_some_iff.mp hc
    rw [← positionAt_append (Nat.le_of_lt hm) ('\n' :: v)]
    apply Call.unexpected (hgap.append_break v)
    · rw [List.getElem?_append_left hm, hc]
    · rw [drop_append_break (Nat.le_of_lt hm)]
      exact fun hstarts => hnone (hstarts.of_append_break (drop_ne_nil hm))

end

/-! ### The line feed -/

/-- The line feed after a text that ends at the position. Blanks stand before it if the
text ends with one. -/
def Token.breakAfter (text : List Char) (position : Position) : Token :=
  ⟨.newline, "\n", ⟨text.length, text.length + 1⟩, position, text.getLast?.any isBlank⟩

section
variable {u : List Char} {n : Nat}

/-- Blanks are passed before the end exactly when the text ends with one. -/
theorem Gap.lt_length_iff (h : Gap u n u.length) (hn : Tight u n) :
    n < u.length ↔ u.getLast?.any isBlank = true := by
  rw [List.getLast?_eq_getElem?, Option.any_eq_true]
  constructor
  · intro hlt
    have hget : u[u.length - 1]? = some u[u.length - 1] := List.getElem?_eq_getElem (by omega)
    exact ⟨_, hget, h.blank (u.length - 1) _ ⟨by omega, by omega⟩ hget⟩
  · rintro ⟨c, hc, hblank⟩
    have hle := h.le
    obtain ⟨hpos, -⟩ := List.getElem?_eq_some_iff.mp hc
    by_cases hlt : n < u.length
    · exact hlt
    · obtain rfl : n = u.length := by omega
      rw [hn c ⟨by omega, hc⟩] at hblank
      cases hblank

/-- **At the end of the text a call finds the line feed instead.** -/
theorem Gap.call_break (h : Gap u n u.length) (hn : Tight u n) (v : List Char) :
    Call (u ++ '\n' :: v) n (.ok (.breakAfter u (positionAt u u.length))) (u.length + 1) := by
  have hbreak : Longest ((u ++ '\n' :: v).drop u.length) ['\n'] .newline := by
    rw [List.drop_left]
    exact Longest.sign .newline v
  have hcall := Call.token (h.append_break v) hbreak
  have hflag : decide (n < u.length) = u.getLast?.any isBlank := by
    rw [Bool.eq_iff_iff, decide_eq_true_iff, h.lt_length_iff hn]
  rw [positionAt_append (Nat.le_refl _), hflag] at hcall
  exact hcall

/-- **A run on a text goes on with the line feed after it.** Up to the end the results
are the same, and in the place of the end stands the line feed. -/
theorem Run.append_break {rs : List (Except Diagnostic Token)} (h : Run u n rs)
    (hn : Tight u n) (v : List Char) :
    ∃ front, rs = front ++ [endOf u] ∧
      Calls (u ++ '\n' :: v) n (front ++ [.ok (.breakAfter u (positionAt u u.length))]) (u.length + 1) := by
  induction h with
  | last hcall hr =>
    obtain ⟨rfl, rfl⟩ := hcall.eq_endOf hr
    exact ⟨[], rfl, .cons (hcall.gap.call_break hn v) rfl .nil⟩
  | cons hcall hr hrs ih =>
    obtain ⟨front, rfl, hcalls⟩ := ih (hcall.tight hr)
    exact ⟨_ :: front, rfl, .cons (hcall.append_break hr v) hr hcalls⟩

end

/-! ### The whole text -/

/-- Behind a text and its line feed everything stands further right and further
down. -/
theorem further_append_break (u : List Char) :
    Further [] (u ++ ['\n']) (u.length + 1) (u.count '\n' + 1) := by
  have hcount : u.count '\n' + 2 = 1 + (u.count '\n' + 1) := by omega
  refine ⟨by simp, ?_⟩
  rw [afterChars_concat_break, hcount, Int32.ofNat_add]
  rfl

/-- **The results of joined texts.** -/
theorem exists_results_joined (s t : String) :
    ∃ front e, (Lexer.ofString s).results = front ++ [.ok e] ∧ e.kind = .eof ∧
      (∀ r ∈ front, Lexer.isEnd r = false) ∧
      (Lexer.ofString (joined s t)).results = front ++ .ok (.breakAfter s.toList e.start) ::
        (Lexer.ofString t).results.map (movedResult (s.length + 1) (s.toList.count '\n' + 1)) := by
  have htight : Tight s.toList 0 := fun c hc => absurd hc.1 (Nat.lt_irrefl 0)
  have hs := (Lexer.at_ofString s).run_results
  have ht := (Lexer.at_ofString t).run_results
  have hjoined := (Lexer.at_ofString (joined s t)).run_results
  have htext : (joined s t).toList = s.toList ++ '\n' :: t.toList := by simp [joined]
  obtain ⟨front, hfront, hcalls⟩ := hs.append_break htight t.toList
  have hmoved := Run.moved (v := t.toList) (further_append_break s.toList) ht (Nat.le_refl 0)
  rw [Nat.zero_add, ← List.append_cons] at hmoved
  have hall := (hcalls.run hmoved).eq (htext ▸ hjoined)
  refine ⟨front, _, hfront, rfl, ?_, ?_⟩
  · intro r hr
    exact hcalls.not_isEnd r (List.mem_append_left _ hr)
  · rw [← hall, String.length_toList, ← List.append_cons]
    rfl

/-! ### All tokens or the first diagnostic -/

/-- The tokens of some results, a token and some more results. -/
theorem mapM_append_token (rs rs' : List (Except Diagnostic Token)) (t : Token) :
    (rs ++ .ok t :: rs').mapM id =
      (rs.mapM id).bind fun ts => (rs'.mapM id).map fun us => ts ++ t :: us := by
  rw [List.mapM_append, List.mapM_cons]
  cases rs.mapM id with
  | error d => rfl
  | ok ts => cases rs'.mapM id <;> rfl

/-- The tokens of results that are moved. -/
theorem mapM_moved (chars lines : Nat) (rs : List (Except Diagnostic Token)) :
    (rs.map (movedResult chars lines)).mapM id =
      ((rs.mapM id).map (List.map (Token.moved chars lines))).mapError
        (Diagnostic.moved chars lines) := by
  have hmoved : movedResult chars lines = fun r =>
      (r.map (Token.moved chars lines)).mapError (Diagnostic.moved chars lines) := by
    funext r
    cases r <;> rfl
  rw [hmoved, mapM_map_results]

/-- **Reading is compositional at line feeds.** The results on two texts with a line
feed between them are the results on the first without its end, then the line feed,
which stands where the first text ends, and then the results on the second, moved
behind the first. So there are tokens exactly if both texts have tokens, and otherwise
the diagnostic is that of the first text, or that of the second, moved. -/
theorem results_joined (s t : String) :
    ∃ front e, (Lexer.ofString s).results = front ++ [.ok e] ∧ e.kind = .eof ∧
      (∀ r ∈ front, Lexer.isEnd r = false) ∧
      (Lexer.ofString (joined s t)).results = front ++ .ok (.breakAfter s.toList e.start) ::
        (Lexer.ofString t).results.map (movedResult (s.length + 1) (s.toList.count '\n' + 1)) ∧
      (∀ d, tokenize (joined s t) = .error d ↔ tokenize s = .error d ∨
        (∃ ts, tokenize s = .ok ts) ∧ ∃ d', tokenize t = .error d' ∧ d = d'.behind s) ∧
      ∀ vs, tokenize (joined s t) = .ok vs ↔
        ∃ ts us, tokenize s = .ok (ts ++ [e]) ∧ tokenize t = .ok us ∧
          vs = ts ++ .breakAfter s.toList e.start :: us.map (Token.behind s) := by
  obtain ⟨front, e, hs, he, hfront, hjoined⟩ := exists_results_joined s t
  refine ⟨front, e, hs, he, hfront, hjoined, ?_⟩
  have htokens : tokenize s = (front.mapM id).map fun ts => ts ++ [e] := by
    rw [tokenize, hs, mapM_append_token]
    rfl
  have hall : tokenize (joined s t) = (front.mapM id).bind fun ts =>
      (((tokenize t).map (List.map (Token.behind s))).mapError (Diagnostic.behind s)).map
        fun us => ts ++ .breakAfter s.toList e.start :: us := by
    rw [tokenize, hjoined, mapM_append_token, mapM_moved]
    rfl
  -- `mapError` on the two kinds of result
  have herror : ∀ d, Except.mapError (Diagnostic.behind s) (.error d : Except Diagnostic (List Token)) =
      .error (d.behind s) := fun _ => rfl
  have hok : ∀ us, Except.mapError (Diagnostic.behind s) (.ok us : Except Diagnostic (List Token)) =
      .ok us := fun _ => rfl
  rw [htokens, hall]
  cases front.mapM id with
  | error d => simp [Except.map, Except.bind]
  | ok ts =>
    cases tokenize t with
    | error d' => simp [Except.map, Except.bind, herror, eq_comm]
    | ok us => simp [Except.map, Except.bind, hok, eq_comm]

end AssignLang
