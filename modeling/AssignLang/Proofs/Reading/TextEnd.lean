/-
# The end behind the last token

Tokens that come without their end get one right behind the last of them, and where that
is, is reckoned from the one token: a line feed begins a line, and any other token takes
as many columns as its span has characters. A lexer counts every character of the text
instead. The two agree behind every token, since a line feed is a lexeme by itself and
stands in no other; so the end that is added is the one that the lexer found, unless
blanks stand between the last token and the end.

Key theorems: `Position.afterChars_of_unbroken`, `Call.positionAfter_eq`,
`Call.endAfter_concat`, `Run.exists_endAfter`, `withEnd_dropLast_iff`.
-/
import AssignLang.Proofs.Lexing.LineBreak
import AssignLang.Proofs.Lexing.Lines
import AssignLang.Proofs.Reading.Language

namespace AssignLang

/-! ### The place behind a token -/

/-- Without a line feed every character takes a column. -/
theorem Position.afterChars_of_unbroken : ∀ {x : List Char} (p : Position), '\n' ∉ x →
    p.afterChars x = ⟨p.line, p.column + Int32.ofNat x.length⟩
  | [], p, _ => congrArg (Position.mk p.line) (Int32.add_zero p.column).symm
  | c :: x, p, hx => by
    obtain ⟨hc, hrest⟩ := not_or.mp (mt List.mem_cons.mpr hx)
    have hafter : p.after c = ⟨p.line, p.column + 1⟩ := if_neg (Ne.symm hc)
    rw [afterChars_cons, hafter, afterChars_of_unbroken _ hrest, List.length_cons, Nat.add_comm,
      Int32.ofNat_add, ← Int32.add_assoc]
    rfl

/-- What a lexeme does to the position: the line feed begins a line, and in no other
lexeme stands one. -/
theorem IsLexeme.afterChars_eq {x : List Char} {k : Kind} (h : IsLexeme x k) (p : Position) :
    p.afterChars x =
      if k = .newline then ⟨p.line + 1, 1⟩ else ⟨p.line, p.column + Int32.ofNat x.length⟩ := by
  by_cases hk : k = .newline
  · subst hk
    rw [if_pos rfl, h.eq_break]
    rfl
  · have hcount := h.count_break
    rw [if_neg hk] at hcount
    rw [if_neg hk, Position.afterChars_of_unbroken p (List.count_eq_zero.mp hcount)]

section
variable {cs : List Char} {n m j : Nat} {t : Token}

theorem Longest.positionAt_eq {x : List Char} {k : Kind} (h : Longest (cs.drop m) x k) :
    positionAt cs (m + x.length) = (positionAt cs m).afterChars x := by
  obtain ⟨w, hw⟩ := h.2.1
  rw [positionAt, List.take_add, ← hw, List.take_left, Position.afterChars_append]
  rfl

/-- The end takes no place. -/
theorem Token.positionAfter_atEnd (offset : Nat) (p : Position) :
    (atEnd offset p).positionAfter = p := by
  have hlength : (Span.empty offset).length = 0 := Nat.sub_self offset
  show Position.mk p.line (p.column + Int32.ofNat (Span.empty offset).length) = p
  rw [hlength]
  exact congrArg (Position.mk p.line) (Int32.add_zero p.column)

/-- **Behind a token is the place of the text there**, also behind the end. -/
theorem Call.positionAfter_eq (h : Call cs n (.ok t) j) : t.positionAfter = positionAt cs j := by
  cases h with
  | finish h => exact Token.positionAfter_atEnd cs.length _
  | @token m x k h hx =>
    have hlength : (Span.mk m (m + x.length)).length = x.length := Nat.add_sub_cancel_left m _
    rw [hx.positionAt_eq, hx.1.afterChars_eq]
    unfold Token.positionAfter
    rw [hlength]

/-- The end that a reading puts behind the token of a call stands where the call ended. -/
theorem Call.endAfter_concat (h : Call cs n (.ok t) j) (ts : List Token) :
    Token.endAfter (ts ++ [t]) = .atEnd j (positionAt cs j) := by
  have hstop : t.span.stop = j := h.stop_eq
  rw [Token.endAfter, List.getLast?_concat]
  show Token.atEnd t.span.stop t.positionAfter = _
  rw [hstop, h.positionAfter_eq]

end

/-! ### The place behind all tokens -/

/-- **The end stays where the lexer is**, along a run: if it stands there behind the
tokens `before`, it also does behind those of the run, which are followed by blanks and
the end of the text. -/
theorem Run.exists_endAfter {cs : List Char} {n : Nat} {rs : List (Except Diagnostic Token)}
    (h : Run cs n rs) (hn : Tight cs n) : ∀ {before ts : List Token}, rs = ts.map .ok →
      Token.endAfter before = .atEnd n (positionAt cs n) →
      ∃ front j, ts = front ++ [.atEnd cs.length (positionAt cs cs.length)] ∧ Tight cs j ∧
        Gap cs j cs.length ∧ Token.endAfter (before ++ front) = .atEnd j (positionAt cs j) := by
  induction h with
  | @last n j r hcall hr =>
    intro before ts hts hbefore
    obtain ⟨t, rfl, rfl⟩ := List.map_eq_singleton_iff.mp hts.symm
    obtain ⟨hend, rfl⟩ := hcall.eq_endOf hr
    obtain rfl := Except.ok.inj hend
    refine ⟨[], n, rfl, hn, hcall.gap, ?_⟩
    rw [List.append_nil, hbefore]
  | @cons n j r rs hcall hr hrs ih =>
    intro before ts hts hbefore
    obtain ⟨t, rest, rfl, rfl, hrest⟩ := List.map_eq_cons_iff.mp hts.symm
    obtain ⟨front, i, rfl, htight, hgap, hfront⟩ :=
      ih (hcall.tight hr) hrest.symm (hcall.endAfter_concat before)
    refine ⟨t :: front, i, rfl, htight, hgap, ?_⟩
    rw [List.append_cons]
    exact hfront

/-- The two ends of a text. -/
theorem exists_endAfter_of_tokenize {source : String} {ts : List Token}
    (h : tokenize source = .ok ts) :
    ∃ front j, ts = front ++
        [.atEnd source.toList.length (positionAt source.toList source.toList.length)] ∧
      Tight source.toList j ∧ Gap source.toList j source.toList.length ∧
      Token.endAfter front = .atEnd j (positionAt source.toList j) := by
  have htight : Tight source.toList 0 := fun c hc => absurd hc.1 (Nat.lt_irrefl 0)
  have hrun := tokenize_eq_ok_iff_run.mp h
  have hstart : Token.endAfter [] = .atEnd 0 (positionAt source.toList 0) := rfl
  obtain ⟨front, j, hts, hfront⟩ := hrun.exists_endAfter htight rfl hstart
  exact ⟨front, j, hts, hfront⟩

/-- Tokens without an end get one. -/
theorem withEnd_of_forall_ne_eof {ts : List Token} (h : ∀ t ∈ ts, t.kind ≠ .eof) :
    withEnd ts = ts ++ [Token.endAfter ts] := by
  rw [withEnd, if_neg]
  intro hany
  obtain ⟨t, ht, hk⟩ := (Option.any_eq_true _ _).mp hany
  exact h t (List.mem_of_getLast? ht) (by simpa using hk)

/-- **The end that is added is the end that the lexer found.** The last token of a text is
its end, and without it the tokens get the same end again, at the same place, exactly if
the text is empty or its last character is no blank. -/
theorem withEnd_dropLast_iff {source : String} {ts : List Token} (h : tokenize source = .ok ts) :
    (∃ e, ts = ts.dropLast ++ [e] ∧ e.kind = .eof) ∧
      (withEnd ts.dropLast = ts ↔
        ∀ c, source.toList.getLast? = some c → c ∉ [' ', '\t', '\r']) := by
  obtain ⟨front, j, hts, htight, hgap, hend⟩ := exists_endAfter_of_tokenize h
  obtain ⟨front', hkinds, hts'⟩ := exists_front_of_tokenize h
  obtain ⟨rfl, -⟩ := List.append_inj' (hts.symm.trans hts') rfl
  have hdrop : ts.dropLast = front := by rw [hts, List.dropLast_concat]
  rw [hdrop]
  refine ⟨⟨_, hts, rfl⟩, ?_⟩
  calc withEnd front = ts
    _ ↔ Token.atEnd j (positionAt source.toList j) =
          .atEnd source.toList.length (positionAt source.toList source.toList.length) := by
        rw [withEnd_of_forall_ne_eof hkinds, hend, hts, List.append_cancel_left_eq,
          List.singleton_inj]
    _ ↔ j = source.toList.length := by
        constructor
        · intro heq
          exact congrArg (fun t => t.span.stop) heq
        · rintro rfl
          rfl
    _ ↔ ¬ j < source.toList.length := by
        have hle := hgap.le
        omega
    _ ↔ ∀ c, source.toList.getLast? = some c → c ∉ [' ', '\t', '\r'] := by
        rw [hgap.lt_length_iff htight, Option.any_eq_true]
        simp only [isBlank_iff_mem, not_exists, not_and]

/-- A text whose last character is a line feed. -/
theorem withEnd_dropLast_iff_break :
    ∃ ts, tokenize "begin\n" = .ok ts ∧ (∃ e, ts = ts.dropLast ++ [e] ∧ e.kind = .eof) ∧
      withEnd ts.dropLast = ts := by
  have hok : (tokenize "begin\n").toOption.isSome = true := by decide +kernel
  cases hts : tokenize "begin\n" with
  | error d =>
    rw [hts] at hok
    cases hok
  | ok ts =>
    have hlast : "begin\n".toList.getLast? = some '\n' := rfl
    obtain ⟨hend, hiff⟩ := withEnd_dropLast_iff hts
    refine ⟨ts, rfl, hend, hiff.mpr ?_⟩
    intro c hc
    obtain rfl := Option.some.inj (hlast.symm.trans hc)
    decide

end AssignLang
