/-
# Where a diagnostic points

Whatever stage stops on a text, its diagnostic stands in the text: at the one
character that is no token, or at a token. The token is one that a reader sees,
except if the first token of the text already is wrong: then it is this one, and
it is a line feed or, in a text of blanks only, the end. So the span is empty for
a text of blanks and for no other, and what a report quotes is the text of the
token or the one character.

Key definitions: `Blank`, `Shows`, `Diagnostic.reportAt`, `PointsInto`.
Key theorems: `exists_token_of_error`, `pointsInto_of_result`,
`compileWith_error_pointsInto`.
-/
import AssignLang.CommandLine
import AssignLang.Proofs.Lexing.Coverage
import AssignLang.Proofs.Lexing.LongestMatch
import AssignLang.Proofs.Running.Outline

namespace AssignLang

/-! ### The token of a diagnostic -/

/-- The tokens of a text end with the end of the text. -/
theorem withEnd_of_tokenize {source : String} {ts : List Token} (h : tokenize source = .ok ts) :
    withEnd ts = ts := by
  have hrun := (Lexer.at_ofString source).run_results
  obtain ⟨front, hfront, -⟩ := hrun.exists_front
  rw [tokenize_eq_ok_iff.mp h] at hfront
  have hlast := congrArg List.getLast? hfront
  rw [List.getLast?_map, List.getLast?_concat] at hlast
  obtain ⟨t, ht, hend⟩ := Option.map_eq_some_iff.mp hlast
  cases hend
  rw [withEnd, ht, if_pos]
  rfl

/-- The first token that is read is `begin`. -/
theorem kind_of_steps_start {t : Token} {w : List Token} {r : Reading}
    (h : Reading.start.steps (t :: w) = .ok r) : t.kind = .beginWord := by
  cases hs : Reading.start.step t with
  | ok r' =>
    cases Reading.next_of_step hs with
    | opens h => exact h
  | error cause =>
    rw [Reading.steps_cons_of_error hs] at h
    cases h

/-- A text that has tokens but no value has a diagnostic at one of the tokens, at
one that can be seen or at the first of them. -/
theorem exists_token_of_error {source : String} {ts : List Token} (hts : tokenize source = .ok ts)
    {s : Scope} {d : Diagnostic} (h : (compileWith source s).1 = .error d) :
    ∃ t ∈ ts, d.span = t.span ∧ d.position = t.start ∧
      (t.isVisible = true ∨ ts.head? = some t) := by
  cases hparse : parse ts with
  | ok p =>
    have hread := readProgram_eq_ok_iff.mpr ⟨ts, hts, hparse⟩
    -- the run beside itself says at which token it stops
    have hself := (Program.run_corresponds (p := p) rfl s).result
    rw [← compileWith_of_ok hread, h] at hself
    obtain ⟨z, hz, cause, rfl, -⟩ := hself.exists_of_error
    obtain ⟨hmem, hvisible⟩ := mem_of_mem_tokens hparse (List.of_mem_zip hz).1
    exact ⟨z.1, hmem, rfl, rfl, .inl hvisible⟩
  | error e =>
    rw [compileWith_of_error ((readProgram_of_ok hts).trans hparse)] at h
    obtain rfl : e = d := Except.error.inj h
    obtain ⟨w, t, r, cause, hpre, hw, hsteps, -, rfl⟩ :=
      Reading.run_eq_error (Token.kind_endAfter ts) ts hparse
    have hprefix := isPrefix_withEnd hw hpre
    rw [withEnd_of_tokenize hts] at hprefix
    have hsub : ∀ u ∈ w ++ [t], u ∈ ts := fun u hu => hprefix.subset hu
    have hpoints := pointsAt_pointAt hw t
    rw [List.append_nil]
    show ∃ u ∈ ts, (Reading.pointAt w.reverse t).span = u.span ∧
      (Reading.pointAt w.reverse t).start = u.start ∧ _
    generalize Reading.pointAt w.reverse t = shown at hpoints
    cases hpoints with
    | itself h => exact ⟨t, hsub t (by simp), rfl, rfl, .inl (by simp [Token.isVisible, h])⟩
    | @before u v _ hk hsplit hs hv =>
      have hmem : shown ∈ w := by simp [hsplit]
      exact ⟨shown, hsub shown (List.mem_append_left _ hmem), rfl, rfl,
        .inl (by simp [Token.isVisible, hs, hw shown hmem])⟩
    | alone hk hnone =>
      refine ⟨t, hsub t (by simp), rfl, rfl, .inr ?_⟩
      cases w with
      | nil =>
        obtain ⟨rest, rfl⟩ := hprefix
        rfl
      | cons x w =>
        have hbegin := kind_of_steps_start hsteps
        rw [hnone x List.mem_cons_self] at hbegin
        cases hbegin

/-- If the first result is the end, there is no other. -/
theorem results_of_head_isEnd {source : String} {r : Except Diagnostic Token}
    (hhead : (Lexer.ofString source).results.head? = some r) (hend : Lexer.isEnd r = true) :
    (Lexer.ofString source).results = [endOf source.toList] := by
  obtain ⟨front, hfront, hnot⟩ := (Lexer.at_ofString source).run_results.exists_front
  cases front with
  | nil => exact hfront
  | cons r' front =>
    -- the first result would come before the end
    rw [hfront] at hhead
    obtain rfl := Option.some.inj hhead
    rw [hnot r' List.mem_cons_self] at hend
    cases hend

/-! ### Texts of blanks -/

/-- The text has nothing but blanks. -/
def Blank (source : String) : Prop := ∀ c ∈ source.toList, c ∈ [' ', '\t', '\r']

section
variable {cs : List Char} {rs : List (Except Diagnostic Token)}

/-- Under a result that holds characters stands no blank. -/
theorem Coverage.not_blank (h : Coverage cs rs) {r : Except Diagnostic Token} (hr : r ∈ rs)
    (hend : Lexer.isEnd r = false) : ¬ ∀ c ∈ cs, c ∈ [' ', '\t', '\r'] := by
  intro hblank
  have hlt := h.first_lt_stop r hr hend
  have hle := h.stop_le_length r hr
  have hc : cs[(spanOf r).first]? = some cs[(spanOf r).first] :=
    List.getElem?_eq_getElem (by omega)
  exact (h.covers_iff _ _ hc).mp ⟨r, hr, Nat.le_refl _, hlt⟩ (hblank _ (List.mem_of_getElem? hc))

/-- Where there is nothing but the end, there is nothing but blanks. -/
theorem Coverage.blank_of_endOf (h : Coverage cs [endOf cs]) : ∀ c ∈ cs, c ∈ [' ', '\t', '\r'] := by
  intro c hc
  obtain ⟨i, hi⟩ := List.mem_iff_getElem?.mp hc
  by_cases hblank : c ∈ [' ', '\t', '\r']
  · exact hblank
  · obtain ⟨r, hr, hfirst, hstop⟩ := (h.covers_iff i c hi).mpr hblank
    rw [List.mem_singleton.mp hr] at hfirst hstop
    exact absurd hstop (Nat.not_lt.mpr hfirst)

/-- No two results hold the same characters. -/
theorem Coverage.eq_of_spanOf_eq (h : Coverage cs rs) {a b : Except Diagnostic Token} (ha : a ∈ rs)
    (hb : b ∈ rs) (hspan : spanOf a = spanOf b) (hend : Lexer.isEnd a = false) : a = b := by
  have hlt := h.first_lt_stop a ha hend
  have hordered := List.pairwise_iff_getElem.mp h.ordered
  obtain ⟨i, hi, rfl⟩ := List.getElem_of_mem ha
  obtain ⟨j, hj, rfl⟩ := List.getElem_of_mem hb
  rcases Nat.lt_trichotomy i j with hij | rfl | hij
  · have hle := hordered i j hi hj hij
    rw [hspan] at hle hlt
    omega
  · rfl
  · have hle := hordered j i hj hi hij
    rw [← hspan] at hle
    omega

end

/-! ### Reports -/

/-- The line about a diagnostic with `place` for what it quotes. -/
def Diagnostic.reportAt (d : Diagnostic) (path place : String) : String :=
  outputLine ("[" ++ path ++ ":" ++ toString d.position.line ++ ":" ++ toString d.position.column ++
    "] Error at " ++ place ++ ": " ++ d.message)

/-- A text between quotes. -/
def quoted (text : List Char) : String := "'" ++ Text.escape text ++ "'"

theorem Diagnostic.report_eq (d : Diagnostic) (path source : String) :
    d.report path source =
      d.reportAt path (if d.span.isEmpty then "EOF" else quoted (d.span.cut source.toList)) := rfl

/-- A report that quotes something does not say that the text ended. -/
theorem Diagnostic.reportAt_quoted_ne (d : Diagnostic) (path : String) (text : List Char) :
    d.reportAt path (quoted text) ≠ d.reportAt path "EOF" := by
  intro h
  have hchars := congrArg String.toList h
  simp [reportAt, outputLine, quoted] at hchars

/-! ### Diagnostics of a text -/

/-- What of the text a diagnostic is about: the character that is no token, or the
text of a token. -/
inductive Shows (source : String) (d : Diagnostic) : List Char → Prop
  | character {c : Char} (h : tokenize source = .error d) (hcause : d.cause = .unexpectedCharacter c)
      (hc : source.toList[d.span.first]? = some c) (hstop : d.span.stop = d.span.first + 1) :
      Shows source d [c]
  | token {ts : List Token} {t : Token} (h : tokenize source = .ok ts) (ht : t ∈ ts)
      (hspan : d.span = t.span) (hposition : d.position = t.start) : Shows source d t.text.toList

/-- The diagnostic points at something of the text. -/
structure PointsInto (source : String) (d : Diagnostic) : Prop where
  first_le_stop : d.span.first ≤ d.span.stop
  stop_le_length : d.span.stop ≤ source.length
  line : d.position.line.toInt = lineOf (source.toList.take d.span.first)
  column : d.position.column.toInt = columnOf (source.toList.take d.span.first)
  shows : Shows source d (d.span.cut source.toList)
  isEmpty_iff : d.span.isEmpty = true ↔ Blank source
  /-- In a text of blanks it is the end. -/
  atEnd : Blank source → ∃ t, tokenize source = .ok [t] ∧ t.kind = .eof ∧ d.span = t.span ∧
    t.span = .empty source.length
  /-- It stands at a line feed only if the first token is one. -/
  newline : ∀ t, .ok t ∈ (Lexer.ofString source).results → t.kind = .newline → d.span = t.span →
    ∃ u, (Lexer.ofString source).results.head? = some (.ok u) ∧ u.kind = .newline
  report_eof_iff : ∀ path, d.report path source = d.reportAt path "EOF" ↔ Blank source
  report_of_not_blank : ∀ path, ¬ Blank source →
    d.report path source = d.reportAt path (quoted (d.span.cut source.toList))

theorem report_eof_iff_isEmpty (d : Diagnostic) (path source : String) :
    d.report path source = d.reportAt path "EOF" ↔ d.span.isEmpty = true := by
  rw [d.report_eq]
  cases d.span.isEmpty with
  | true => simp
  | false => simp [d.reportAt_quoted_ne path]

section
variable {source : String} (hs : source.length < 2147483647) {d : Diagnostic}
include hs

/-- The results of the calls account for the text. -/
theorem coverage_results : Coverage source.toList (Lexer.ofString source).results :=
  (Lexer.at_ofString source).run_results.coverage (by rwa [String.length_toList])

/-- A result has an empty span exactly in a text of blanks, if it is the end only
where there is nothing else. -/
theorem isEmpty_spanOf_iff {r : Except Diagnostic Token}
    (hr : r ∈ (Lexer.ofString source).results) (halone : Lexer.isEnd r = true →
      r = endOf source.toList ∧ (Lexer.ofString source).results = [endOf source.toList]) :
    (spanOf r).isEmpty = true ↔ Blank source := by
  have hcover := coverage_results hs
  cases hend : Lexer.isEnd r with
  | true =>
    obtain ⟨rfl, hresults⟩ := halone hend
    rw [hresults] at hcover
    exact iff_of_true (by simp [endOf, spanOf, Token.atEnd, Span.isEmpty, Span.empty])
      hcover.blank_of_endOf
  | false =>
    have hlt := hcover.first_lt_stop r hr hend
    refine iff_of_false ?_ (hcover.not_blank hr hend)
    rw [Span.isEmpty, beq_iff_eq]
    exact Nat.ne_of_lt hlt

/-- A diagnostic where a result stands that shows in the text or is the first
one. -/
theorem pointsInto_of_result {r : Except Diagnostic Token}
    (hr : r ∈ (Lexer.ofString source).results) (hspan : d.span = spanOf r)
    (hposition : d.position = positionOf r) (hshows : Shows source d (d.span.cut source.toList))
    (hhead : ∀ t, r = .ok t → t.isVisible = false →
      (Lexer.ofString source).results.head? = some r) : PointsInto source d := by
  have hcover := coverage_results hs
  obtain ⟨i, j, -, hcall⟩ := (Lexer.at_ofString source).run_results.exists_call_of_zero r hr
  have halone : Lexer.isEnd r = true →
      r = endOf source.toList ∧ (Lexer.ofString source).results = [endOf source.toList] := by
    intro hend
    have heq := (hcall.eq_endOf hend).1
    exact ⟨heq, results_of_head_isEnd (hhead _ heq rfl) hend⟩
  have hempty := isEmpty_spanOf_iff hs hr halone
  rw [← hspan] at hempty
  refine ⟨?_, ?_, ?_, ?_, hshows, hempty, ?_, ?_, ?_, ?_⟩
  · rw [hspan, hcall.stop_eq]
    exact hcall.first_le_stop
  · rw [hspan, ← String.length_toList]
    exact hcover.stop_le_length r hr
  · rw [hspan, hposition]
    exact hcover.line r hr
  · rw [hspan, hposition]
    exact hcover.column r hr
  · intro hblank
    cases hend : Lexer.isEnd r with
    | true =>
      obtain ⟨rfl, hresults⟩ := halone hend
      exact ⟨_, tokenize_eq_ok_iff.mpr hresults, rfl, hspan, congrArg Span.empty String.length_toList⟩
    | false => exact absurd hblank (hcover.not_blank hr hend)
  · intro t ht hk hspan'
    have hend : Lexer.isEnd (.ok t) = false := by simp [Lexer.isEnd, hk]
    have hsame : spanOf (.ok t) = spanOf r := hspan'.symm.trans hspan
    obtain rfl := hcover.eq_of_spanOf_eq ht hr hsame hend
    exact ⟨t, hhead t rfl (by simp [Token.isVisible, hk]), hk⟩
  · intro path
    rw [report_eof_iff_isEmpty, hempty]
  · intro path hnot
    rw [d.report_eq, if_neg fun h => hnot (hempty.mp h)]

/-- A diagnostic of the first stage. -/
theorem pointsInto_of_tokenize_error (h : tokenize source = .error d) : PointsInto source d := by
  obtain ⟨ts, rest, hresults⟩ := tokenize_eq_error_iff.mp h
  have hmem : Except.error d ∈ (Lexer.ofString source).results := by simp [hresults]
  obtain ⟨i, j, -, hcall⟩ := (Lexer.at_ofString source).run_results.exists_call_of_zero _ hmem
  have hshows : Shows source d (d.span.cut source.toList) := by
    cases hcall with
    | @unexpected m c hgap hc hx =>
      have hcut : (Span.mk m (m + 1)).cut source.toList = [c] := by
        simp [Span.cut, Span.length, List.take_one, hc]
      rw [hcut]
      exact .character h rfl hc rfl
  refine pointsInto_of_result hs hmem rfl rfl hshows ?_
  intro t ht
  cases ht

/-- A diagnostic at a token that can be seen, or at the first one. -/
theorem pointsInto_of_token {ts : List Token} (hts : tokenize source = .ok ts) {t : Token}
    (ht : t ∈ ts) (hspan : d.span = t.span) (hposition : d.position = t.start)
    (hshown : t.isVisible = true ∨ ts.head? = some t) : PointsInto source d := by
  have hresults := tokenize_eq_ok_iff.mp hts
  have hmem : Except.ok t ∈ (Lexer.ofString source).results := by
    rw [hresults]
    exact List.mem_map_of_mem ht
  have hshows : Shows source d (d.span.cut source.toList) := by
    rw [hspan, ← (coverage_results hs).text_eq t hmem]
    exact .token hts ht hspan hposition
  refine pointsInto_of_result hs hmem hspan hposition hshows ?_
  rintro u hu hinvisible
  obtain rfl := Except.ok.inj hu
  rw [hresults, List.head?_map, hshown.resolve_left (by simp [hinvisible])]
  rfl

/-- **Every diagnostic points at something of its text**, whatever stage it comes
from and whatever scope the text is run in. -/
theorem compileWith_error_pointsInto {s : Scope} (h : (compileWith source s).1 = .error d) :
    PointsInto source d := by
  cases hts : tokenize source with
  | error e =>
    rw [compileWith_of_error (readProgram_of_error hts)] at h
    cases h
    exact pointsInto_of_tokenize_error hs hts
  | ok ts =>
    obtain ⟨t, ht, hspan, hposition, hshown⟩ := exists_token_of_error hts h
    exact pointsInto_of_token hs hts ht hspan hposition hshown

end

/-- The variable on the right has no value. -/
theorem compileWith_error_pointsInto_unbound :
    "begin\nx = y\nend".length < 2147483647 ∧
      ∃ d, (compileWith "begin\nx = y\nend" .empty).1 = .error d ∧
        PointsInto "begin\nx = y\nend" d := by
  have hs : "begin\nx = y\nend".length < 2147483647 := by decide
  have hnone : (compileWith "begin\nx = y\nend" .empty).1.toOption.isNone = true := by
    decide +kernel
  cases h : (compileWith "begin\nx = y\nend" .empty).1 with
  | ok v =>
    rw [h] at hnone
    cases hnone
  | error d => exact ⟨hs, d, rfl, compileWith_error_pointsInto hs h⟩

end AssignLang
