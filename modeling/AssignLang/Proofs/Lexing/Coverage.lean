/-
# A lexer loses nothing and says where it is

The results of the calls up to the first end of a text lie one after the other.
Between two of them stand the blanks that the second call passed, and nothing
else; so the characters under the results are those that are no blanks. Every
result stands at the line and column of its first character, counted over all
characters before it.

Key definitions: `Coverage`, `lineOf`, `columnOf`.
Key theorems: `positionAt_eq`, `Run.covers_iff`, `Run.coverage`,
`calls_coverage`.
-/
import AssignLang.Proofs.Lexing.Calls

namespace AssignLang

/-! ### Lines and columns -/

/-- The line after the characters `u`: one more than their line feeds. -/
def lineOf (u : List Char) : Nat := 1 + u.count '\n'

/-- The column after the characters `u`: one more than those after their last
line feed. -/
def columnOf (u : List Char) : Nat := 1 + (u.reverse.takeWhile fun c => c != '\n').length

/-- The induction is on the characters from the last one back. -/
theorem afterChars_reverse : ∀ v : List Char, Position.start.afterChars v.reverse =
    ⟨Int32.ofNat (lineOf v.reverse), Int32.ofNat (columnOf v.reverse)⟩
  | [] => rfl
  | c :: v => by
    rw [List.reverse_cons, Position.afterChars_append, afterChars_reverse v,
      Position.afterChars_cons, Position.afterChars_nil, Position.after]
    by_cases hc : c = '\n'
    · have hline : lineOf (v.reverse ++ [c]) = lineOf v.reverse + 1 := by
        simp [lineOf, hc, Nat.add_assoc]
      have hcolumn : columnOf (v.reverse ++ [c]) = 1 := by simp [columnOf, hc]
      rw [if_pos hc, hline, hcolumn, Int32.ofNat_add]
      rfl
    · have hline : lineOf (v.reverse ++ [c]) = lineOf v.reverse := by
        simp [lineOf, hc]
      have hcolumn : columnOf (v.reverse ++ [c]) = columnOf v.reverse + 1 := by
        simp [columnOf, hc, Nat.add_assoc]
      rw [if_neg hc, hline, hcolumn, Int32.ofNat_add]
      rfl

theorem afterChars_start (u : List Char) :
    Position.start.afterChars u = ⟨Int32.ofNat (lineOf u), Int32.ofNat (columnOf u)⟩ := by
  simpa using afterChars_reverse u.reverse

/-- In a text that is not too long, lines and columns do not wrap. -/
theorem positionAt_eq {cs : List Char} (hcs : cs.length < 2147483647) (n : Nat) :
    (positionAt cs n).line.toInt = lineOf (cs.take n) ∧
      (positionAt cs n).column.toInt = columnOf (cs.take n) := by
  have htake : (cs.take n).length ≤ cs.length := by
    rw [List.length_take]
    omega
  have hline : lineOf (cs.take n) < 2147483648 := by
    have hcount := List.count_le_length (a := '\n') (l := cs.take n)
    rw [lineOf]
    omega
  have hcolumn : columnOf (cs.take n) < 2147483648 := by
    have hrun := (List.takeWhile_prefix (l := (cs.take n).reverse) fun c => c != '\n').length_le
    rw [List.length_reverse] at hrun
    rw [columnOf]
    omega
  rw [positionAt, afterChars_start]
  exact ⟨Int32.toInt_ofNat_of_lt hline, Int32.toInt_ofNat_of_lt hcolumn⟩

/-! ### One result -/

/-- The position of a result. -/
def positionOf : Except Diagnostic Token → Position
  | .ok t => t.start
  | .error d => d.position

/-- No blank stands right before character number `n`. -/
def Tight (cs : List Char) (n : Nat) : Prop :=
  ∀ c, 0 < n ∧ cs[n - 1]? = some c → isBlank c = false

/-- The characters of a lexeme are no blanks. -/
theorem Longest.not_isBlank {cs x : List Char} {k : Kind} {m i : Nat} {c : Char}
    (h : Longest (cs.drop m) x k) (hi : m ≤ i ∧ i < m + x.length) (hc : cs[i]? = some c) :
    isBlank c = false := by
  obtain ⟨hx, ⟨w, hw⟩, -⟩ := h
  rw [getElem?_eq_drop hi.1, ← hw, List.getElem?_append_left (by omega)] at hc
  exact hx.not_isBlank c (List.mem_of_getElem? hc)

namespace Call

variable {cs : List Char} {n j : Nat} {r : Except Diagnostic Token}

/-- A result stands after the blanks. -/
theorem gap (h : Call cs n r j) : Gap cs n (spanOf r).first := by
  cases h with
  | finish h => exact h
  | token h hx => exact h
  | unexpected h hc hx => exact h

theorem stop_eq (h : Call cs n r j) : (spanOf r).stop = j := by
  cases h with
  | finish h => rfl
  | token h hx => rfl
  | unexpected h hc hx => rfl

theorem first_le_stop (h : Call cs n r j) : (spanOf r).first ≤ j := by
  cases h with
  | finish h => exact Nat.le_refl _
  | token h hx => exact Nat.le_add_right _ _
  | unexpected h hc hx => exact Nat.le_succ _

theorem stop_le_length (h : Call cs n r j) : j ≤ cs.length := by
  cases h with
  | finish h => exact Nat.le_refl _
  | @token m x k h hx =>
    have hle := hx.2.1.length_le
    have hm := h.le_length
    rw [List.length_drop] at hle
    omega
  | unexpected h hc hx =>
    obtain ⟨hm, -⟩ := List.getElem?_eq_some_iff.mp hc
    exact hm

theorem positionOf_eq (h : Call cs n r j) : positionOf r = positionAt cs (spanOf r).first := by
  cases h with
  | finish h => rfl
  | token h hx => rfl
  | unexpected h hc hx => rfl

/-- Every other result has characters. -/
theorem first_lt_stop (h : Call cs n r j) (hr : Lexer.isEnd r = false) :
    (spanOf r).first < j := by
  cases h with
  | finish h => cases hr
  | @token m x k h hx =>
    have hpos := List.length_pos_iff.mpr hx.1.ne_nil
    show m < m + x.length
    omega
  | unexpected h hc hx => exact Nat.lt_succ_self _

/-- The characters of a result are no blanks. -/
theorem not_isBlank (h : Call cs n r j) {i : Nat} {c : Char}
    (hi : (spanOf r).first ≤ i ∧ i < j) (hc : cs[i]? = some c) : isBlank c = false := by
  cases h with
  | finish h => exact absurd hi.2 (Nat.not_lt.mpr hi.1)
  | token h hx => exact hx.not_isBlank hi hc
  | @unexpected m d h hd hx =>
    obtain rfl : i = m := Nat.le_antisymm (Nat.lt_succ_iff.mp hi.2) hi.1
    exact h.stop c hc

/-- No blank stands right before the next call. -/
theorem tight (h : Call cs n r j) (hr : Lexer.isEnd r = false) : Tight cs j := by
  rintro c ⟨hpos, hc⟩
  have hlt := h.first_lt_stop hr
  exact h.not_isBlank ⟨by omega, by omega⟩ hc

/-- A diagnostic is about one character. -/
theorem stop_of_error {d : Diagnostic} (h : Call cs n (.error d) j) :
    d.span.stop = d.span.first + 1 := by
  cases h with
  | unexpected h hc hx => rfl

/-- The text of a token is what its span covers. -/
theorem text_eq_cut {t : Token} (h : Call cs n (.ok t) j) : t.text.toList = t.span.cut cs := by
  cases h with
  | finish h => simp [Token.atEnd, Span.cut, Span.empty]
  | @token m x k h hx =>
    obtain ⟨w, hw⟩ := hx.2.1
    have hlen : (Span.mk m (m + x.length)).length = x.length := by simp [Span.length]
    rw [Span.cut, hlen, ← hw, List.take_left, String.toList_ofList]

/-- A token is marked exactly when a blank stands right before it, and the end
never is. -/
theorem spaceBefore_iff {t : Token} (h : Call cs n (.ok t) j) (hn : Tight cs n) :
    t.spaceBefore = true ↔ t.kind ≠ .eof ∧
      ∃ c, 0 < t.span.first ∧ cs[t.span.first - 1]? = some c ∧ isBlank c = true := by
  cases h with
  | finish h => simp [Token.atEnd]
  | @token m x k h hx =>
    have hlt := hx.lt_length
    have hle := h.le
    simp only [decide_eq_true_eq, ne_eq, hx.1.kind_ne_eof, not_false_eq_true, true_and]
    constructor
    · intro hnm
      have hget : cs[m - 1]? = some cs[m - 1] := List.getElem?_eq_getElem (by omega)
      exact ⟨cs[m - 1], by omega, hget, h.blank (m - 1) _ ⟨by omega, by omega⟩ hget⟩
    · rintro ⟨c, hpos, hc, hblank⟩
      by_cases hnm : n = m
      · subst hnm
        rw [hn c ⟨hpos, hc⟩] at hblank
        cases hblank
      · omega

end Call

/-! ### All results -/

namespace Run

variable {cs : List Char} {n : Nat} {rs : List (Except Diagnostic Token)}

/-- Every result is that of a call further on. -/
theorem exists_call (h : Run cs n rs) (hn : Tight cs n) :
    ∀ r ∈ rs, ∃ i j, n ≤ i ∧ Tight cs i ∧ Call cs i r j := by
  induction h with
  | @last n j r h hr =>
    intro r' hr'
    rw [List.mem_singleton.mp hr']
    exact ⟨n, j, Nat.le_refl n, hn, h⟩
  | @cons n j r rs h hr hrs ih =>
    have hle := Nat.le_trans h.gap.le h.first_le_stop
    intro r' hr'
    rcases List.mem_cons.mp hr' with rfl | hr'
    · exact ⟨n, j, Nat.le_refl n, hn, h⟩
    · obtain ⟨i, k, hji, htight, hcall⟩ := ih (h.tight hr) r' hr'
      exact ⟨i, k, Nat.le_trans hle hji, htight, hcall⟩

/-- The results stand one after the other. -/
theorem pairwise (h : Run cs n rs) :
    rs.Pairwise fun a b => (spanOf a).stop ≤ (spanOf b).first := by
  induction h with
  | last h hr => exact List.pairwise_singleton _ _
  | @cons n j r rs h hr hrs ih =>
    refine List.pairwise_cons.mpr ⟨?_, ih⟩
    intro r' hr'
    obtain ⟨i, k, hji, -, hcall⟩ := hrs.exists_call (h.tight hr) r' hr'
    rw [h.stop_eq]
    exact Nat.le_trans hji hcall.gap.le

/-- Every result but the last takes at least one character. -/
theorem length_le (h : Run cs n rs) : rs.length + n ≤ cs.length + 1 := by
  induction h with
  | @last n j r h hr =>
    have hgap := h.gap
    have hle := Nat.le_trans hgap.le hgap.le_length
    rw [List.length_singleton]
    omega
  | @cons n j r rs h hr hrs ih =>
    have hgap := h.gap.le
    have hlt := h.first_lt_stop hr
    rw [List.length_cons]
    omega

/-- **The characters under the results are those that are no blanks.** -/
theorem covers_iff (h : Run cs n rs) {i : Nat} {c : Char} (hi : n ≤ i) (hc : cs[i]? = some c) :
    (∃ r ∈ rs, (spanOf r).first ≤ i ∧ i < (spanOf r).stop) ↔ isBlank c = false := by
  obtain ⟨hlt, -⟩ := List.getElem?_eq_some_iff.mp hc
  induction h with
  | @last n j r h hr =>
    obtain ⟨rfl, -⟩ := h.eq_endOf hr
    have hblank := h.gap.blank i c ⟨hi, hlt⟩ hc
    constructor
    · rintro ⟨r', hr', hfirst, hstop⟩
      rw [List.mem_singleton.mp hr'] at hfirst
      exact absurd hlt (Nat.not_lt.mpr hfirst)
    · intro hnot
      rw [hblank] at hnot
      cases hnot
  | @cons n j r rs h hr hrs ih =>
    by_cases hfirst : (spanOf r).first ≤ i
    · by_cases hstop : i < j
      · have hnot := h.not_isBlank ⟨hfirst, hstop⟩ hc
        exact ⟨fun _ => hnot, fun _ => ⟨r, List.mem_cons_self, hfirst, h.stop_eq ▸ hstop⟩⟩
      · -- The character comes after this result.
        rw [← ih (Nat.not_lt.mp hstop)]
        constructor
        · rintro ⟨r', hr', hspan⟩
          rcases List.mem_cons.mp hr' with rfl | hr'
          · exact absurd (h.stop_eq ▸ hspan.2) hstop
          · exact ⟨r', hr', hspan⟩
        · rintro ⟨r', hr', hspan⟩
          exact ⟨r', List.mem_cons_of_mem r hr', hspan⟩
    · -- The character is one of the blanks before this result.
      have hblank := h.gap.blank i c ⟨hi, Nat.not_le.mp hfirst⟩ hc
      constructor
      · rintro ⟨r', hr', hspan⟩
        rcases List.mem_cons.mp hr' with rfl | hr'
        · exact absurd hspan.1 hfirst
        · obtain ⟨i', k, hji, -, hcall⟩ := hrs.exists_call (h.tight hr) r' hr'
          have hle := hcall.gap.le
          have hstop := h.first_le_stop
          omega
      · intro hnot
        rw [hblank] at hnot
        cases hnot

end Run

/-! ### Calls after the end -/

/-- At the end of the text there is nothing but the end. -/
theorem Call.eq_endOf_of_length {cs : List Char} {r : Except Diagnostic Token} {j : Nat}
    (h : Call cs cs.length r j) : r = endOf cs ∧ j = cs.length := by
  cases h with
  | finish h => exact ⟨rfl, rfl⟩
  | token h hx => exact absurd hx.lt_length (Nat.not_lt.mpr h.le)
  | unexpected h hc hx =>
    obtain ⟨hm, -⟩ := List.getElem?_eq_some_iff.mp hc
    exact absurd hm (Nat.not_lt.mpr h.le)

namespace Lexer

theorem At.calls_of_length {cs : List Char} : ∀ {i m : Nat} {spaced : Bool} {l : Lexer},
    At cs m cs.length spaced l → l.calls i = List.replicate i (endOf cs)
  | 0, _, _, _, _ => rfl
  | i + 1, m, spaced, l, h => by
    obtain ⟨m', n', spaced', hcall, hnext⟩ := h.next
    obtain ⟨hend, rfl⟩ := hcall.eq_endOf_of_length
    rw [calls, hend, hnext.calls_of_length, List.replicate_succ]

/-- After the first end every call returns the end. -/
theorem At.calls_add {cs : List Char} {m n : Nat} {spaced : Bool} {l : Lexer}
    (h : At cs m n spaced l) (i : Nat) :
    l.calls (l.results.length + i) = l.results ++ List.replicate i (endOf cs) := by
  obtain ⟨m', n', spaced', hcall, hnext⟩ := h.next
  cases hend : isEnd l.next.1 with
  | true =>
    obtain ⟨-, rfl⟩ := hcall.eq_endOf hend
    rw [results_of_isEnd hend, List.length_singleton, Nat.add_comm, calls, hnext.calls_of_length]
    rfl
  | false =>
    rw [results_of_not_isEnd hend, List.length_cons, Nat.add_right_comm, calls, hnext.calls_add i]
    rfl
termination_by l.left
decreasing_by exact left_next_lt l hend

end Lexer

/-! ### The whole text -/

/-- The results account for the text. -/
structure Coverage (cs : List Char) (rs : List (Except Diagnostic Token)) : Prop where
  length_le : rs.length ≤ cs.length + 1
  /-- Each stands after the one before it. -/
  ordered : rs.Pairwise fun a b => (spanOf a).stop ≤ (spanOf b).first
  stop_le_length : ∀ r ∈ rs, (spanOf r).stop ≤ cs.length
  first_lt_stop : ∀ r ∈ rs, Lexer.isEnd r = false → (spanOf r).first < (spanOf r).stop
  /-- A diagnostic is about one character. -/
  stop_of_error : ∀ d, .error d ∈ rs → d.span.stop = d.span.first + 1
  /-- The characters under them are those that are no blanks. -/
  covers_iff : ∀ i c, cs[i]? = some c →
    ((∃ r ∈ rs, (spanOf r).first ≤ i ∧ i < (spanOf r).stop) ↔ c ∉ [' ', '\t', '\r'])
  text_eq : ∀ t, .ok t ∈ rs → t.text.toList = t.span.cut cs
  eof : ∀ t, .ok t ∈ rs → t.kind = .eof → t.text = "" ∧ t.span = .empty cs.length
  line : ∀ r ∈ rs, (positionOf r).line.toInt = lineOf (cs.take (spanOf r).first)
  column : ∀ r ∈ rs, (positionOf r).column.toInt = columnOf (cs.take (spanOf r).first)
  /-- A token but the end is marked exactly when a blank stands right before it. -/
  spaceBefore_iff : ∀ t, .ok t ∈ rs → (t.spaceBefore = true ↔ t.kind ≠ .eof ∧
    ∃ c, 0 < t.span.first ∧ cs[t.span.first - 1]? = some c ∧ c ∈ [' ', '\t', '\r'])

theorem isBlank_iff_mem {c : Char} : isBlank c = true ↔ c ∈ [' ', '\t', '\r'] := by
  simp [isBlank, or_assoc]

/-- Every result is that of a call on the text. -/
theorem Run.exists_call_of_zero {cs : List Char} {rs : List (Except Diagnostic Token)}
    (h : Run cs 0 rs) : ∀ r ∈ rs, ∃ i j, Tight cs i ∧ Call cs i r j := by
  have htight : Tight cs 0 := fun c hc => absurd hc.1 (Nat.lt_irrefl 0)
  intro r hr
  obtain ⟨i, j, -, hi, hcall⟩ := h.exists_call htight r hr
  exact ⟨i, j, hi, hcall⟩

/-- What holds of one call and of the order of calls holds of the whole text. -/
theorem Run.coverage {cs : List Char} (hcs : cs.length < 2147483647)
    {rs : List (Except Diagnostic Token)} (h : Run cs 0 rs) : Coverage cs rs where
  length_le := h.length_le
  ordered := h.pairwise
  stop_le_length := by
    intro r hr
    obtain ⟨i, j, -, hcall⟩ := h.exists_call_of_zero r hr
    rw [hcall.stop_eq]
    exact hcall.stop_le_length
  first_lt_stop := by
    intro r hr hend
    obtain ⟨i, j, -, hcall⟩ := h.exists_call_of_zero r hr
    rw [hcall.stop_eq]
    exact hcall.first_lt_stop hend
  stop_of_error := by
    intro d hd
    obtain ⟨i, j, -, hcall⟩ := h.exists_call_of_zero _ hd
    exact hcall.stop_of_error
  covers_iff := by
    intro i c hc
    rw [h.covers_iff (Nat.zero_le i) hc, ← isBlank_iff_mem, Bool.not_eq_true]
  text_eq := by
    intro t ht
    obtain ⟨i, j, -, hcall⟩ := h.exists_call_of_zero _ ht
    exact hcall.text_eq_cut
  eof := by
    intro t ht hk
    obtain ⟨i, j, -, hcall⟩ := h.exists_call_of_zero _ ht
    obtain ⟨hend, -⟩ := hcall.eq_endOf (by simp [Lexer.isEnd, hk])
    cases hend
    exact ⟨rfl, rfl⟩
  line := by
    intro r hr
    obtain ⟨i, j, -, hcall⟩ := h.exists_call_of_zero r hr
    rw [hcall.positionOf_eq]
    exact (positionAt_eq hcs _).1
  column := by
    intro r hr
    obtain ⟨i, j, -, hcall⟩ := h.exists_call_of_zero r hr
    rw [hcall.positionOf_eq]
    exact (positionAt_eq hcs _).2
  spaceBefore_iff := by
    intro t ht
    obtain ⟨i, j, hi, hcall⟩ := h.exists_call_of_zero _ ht
    rw [hcall.spaceBefore_iff hi]
    simp only [isBlank_iff_mem]

/-- **A lexer loses nothing and reports true positions.** Some number of calls
comes to the first end of the text; their results account for the text, and every
further call returns the same end. -/
theorem calls_coverage {s : String} (hs : s.length < 2147483647) :
    ∃ k front e, (Lexer.ofString s).calls k = front ++ [e] ∧ Lexer.isEnd e = true ∧
      (∀ r ∈ front, Lexer.isEnd r = false) ∧ Coverage s.toList (front ++ [e]) ∧
      ∀ i, (Lexer.ofString s).calls (k + i) = front ++ [e] ++ List.replicate i e := by
  have hat := Lexer.at_ofString s
  have hrun := hat.run_results
  obtain ⟨front, hrs, hfront⟩ := hrun.exists_front
  refine ⟨(Lexer.ofString s).results.length, front, endOf s.toList, ?_, rfl, hfront, ?_, ?_⟩
  · rw [Lexer.calls_length_results, hrs]
  · rw [← hrs]
    exact hrun.coverage (by rwa [String.length_toList])
  · intro i
    rw [hat.calls_add, hrs]

/-- A blank, a letter outside ASCII and a line feed. -/
theorem calls_coverage_letter :
    ∃ k front e, (Lexer.ofString " é\n").calls k = front ++ [e] ∧ Lexer.isEnd e = true ∧
      (∀ r ∈ front, Lexer.isEnd r = false) ∧ Coverage " é\n".toList (front ++ [e]) ∧
      ∀ i, (Lexer.ofString " é\n").calls (k + i) = front ++ [e] ++ List.replicate i e :=
  calls_coverage (by decide)

end AssignLang
