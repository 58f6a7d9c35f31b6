/-
# The end of a file

The command line cuts the white space at the end of a file off and runs the rest. For a
text that is a program this makes no difference: the text ends with `end` and blanks,
and blanks are white space that is passed anyway. So the command line gives the value
and the variables that the text itself has. Only the tokens are listed as those of the
shorter text, whose end stands further left.

Other white space, a line feed for example, cannot end a program. A text that ends with
it has no value, but the command line may run it.

Key theorems: `exists_end_of_readProgram`, `readProgram_trimEnd`,
`Options.run_append_white_space`, `Options.run_of_compile`.
-/
import AssignLang.Proofs.CommandLine.Agreement
import AssignLang.Proofs.Lexing.TrailingBlanks
import AssignLang.Proofs.Reading.Ending

namespace AssignLang

/-! ### Cutting white space off -/

theorem Text.isWhiteSpace_of_isBlank {c : Char} (h : isBlank c = true) :
    isWhiteSpace c = true := by
  simp only [isBlank, Bool.or_eq_true, beq_iff_eq] at h
  rcases h with (rfl | rfl) | rfl <;> rfl

/-- What is cut off begins behind the last character that is no white space. -/
theorem Text.trimEndChars_concat_append {u w : List Char} {c : Char}
    (hc : isWhiteSpace c = false) (hw : ∀ d ∈ w, isWhiteSpace d = true) :
    trimEndChars (u ++ [c] ++ w) = u ++ [c] := by
  rw [trimEnd_append_of_all _ w hw, trimEndChars, List.reverse_append, List.reverse_singleton,
    List.singleton_append, List.dropWhile_cons_of_neg (by simp [hc]), List.reverse_cons,
    List.reverse_reverse]

/-! ### The end of a program -/

/-- **A program ends with `end` and blanks.** -/
theorem exists_end_of_readProgram {source : String} {p : Program}
    (h : readProgram source = .ok p) :
    ∃ u b, source.toList = u ++ "end".toList ++ b ∧ ∀ c ∈ b, isBlank c = true := by
  obtain ⟨ts, hts, hp⟩ := readProgram_eq_ok_iff.mp h
  obtain ⟨front, hfront, rfl⟩ := exists_front_of_tokenize hts
  obtain ⟨d, hd, -⟩ := parse_eq_ok_iff_derivation.mp hp
  have htokens : d.body.tokens ++ [d.closing.1] = front := by
    rw [beforeEnd_append hfront] at hd
    simpa [Derivation.tokens, beforeEnd, Token.atEnd] using hd
  rw [← htokens, List.append_assoc, List.singleton_append] at hts
  have hclosing := d.closing.2
  have hlexeme := isLexeme_of_tokenize hts (t := d.closing.1) (by simp) (by simp [hclosing])
  rw [hclosing] at hlexeme
  rw [← hlexeme.eq_keyword .endWord]
  exact exists_blanks_of_tokenize hts

/-- **A program stays the same when the white space at its end is cut off.** -/
theorem readProgram_trimEnd {source : String} {p : Program} (h : readProgram source = .ok p) :
    readProgram (Text.trimEnd source) = .ok p := by
  obtain ⟨u, b, hsource, hb⟩ := exists_end_of_readProgram h
  have htrim : Text.trimEnd source = String.ofList (u ++ "end".toList) := by
    have hword : u ++ "end".toList = u ++ ['e', 'n'] ++ ['d'] := by simp
    rw [Text.trimEnd, hsource, hword, Text.trimEndChars_concat_append rfl fun c hc =>
      Text.isWhiteSpace_of_isBlank (hb c hc)]
  obtain ⟨ts, hts, hp⟩ := readProgram_eq_ok_iff.mp h
  rw [← String.ofList_toList (s := source), hsource] at hts
  obtain ⟨front, e, e', rfl, hts', he, he'⟩ := tokenize_of_append_blanks hb hts
  -- Something comes before the end, so what the end is makes no difference.
  have hne : front ≠ [] := by
    rintro rfl
    rw [List.nil_append, parse_end_cons he] at hp
    cases hp
  rw [htrim, readProgram_of_ok hts', parse_concat_end hne he', ← parse_concat_end hne he, hp]

theorem compileWith_trimEnd {source : String} {p : Program} (h : readProgram source = .ok p)
    (s : Scope) : compileWith (Text.trimEnd source) s = compileWith source s := by
  rw [compileWith_of_ok (readProgram_trimEnd h), compileWith_of_ok h]

/-- A text that has a value has a program. -/
theorem exists_readProgram_of_compile {source : String} {v : Value} (h : compile source = .ok v) :
    ∃ p, readProgram source = .ok p := by
  cases hp : readProgram source with
  | ok p => exact ⟨p, rfl⟩
  | error d =>
    rw [compile, compileWith_of_error hp] at h
    cases h

/-! ### The command line -/

namespace Options

theorem run_text (o : Options) (contents : String) :
    o.run (some contents.toUTF8) = o.runText contents := by
  simp only [run, Option.bind_some, fromUTF8?_toUTF8]

/-- White space at the end of a file makes no difference. -/
theorem run_append_white_space (o : Options) (t : String) {w : String}
    (hw : ∀ c ∈ w.toList, Text.isWhiteSpace c = true) :
    o.run (some (t ++ w).toUTF8) = o.run (some t.toUTF8) := by
  have htrim : Text.trimEnd (t ++ w) = Text.trimEnd t := by
    rw [Text.trimEnd, Text.trimEnd, String.toList_append, Text.trimEnd_append_of_all _ _ hw]
  rw [run_text, run_text, runText, runText, htrim]

/-- What a text with a value prints on the command line. -/
theorem run_of_compile (o : Options) {t : String} {v : Value} (h : compile t = .ok v) :
    o.run (some t.toUTF8) =
      ⟨0, listing o.tokens (tokenLines (Text.trimEnd t)) ++ listing o.ast (programLines t) ++
        outputLine v.text ++
        listing o.verbose (String.join ((compileWith t .empty).2.bindings.map Binding.listing)),
        ""⟩ := by
  obtain ⟨p, hp⟩ := exists_readProgram_of_compile h
  have htrim := readProgram_trimEnd hp
  have hwith := compileWith_trimEnd hp .empty
  have hcompile : compile (Text.trimEnd t) = .ok v := by rw [compile, hwith, ← compile, h]
  have hprogram : programLines (Text.trimEnd t) = programLines t := by
    rw [programLines, programLines, htrim, hp]
  have hvalue : valueLine (Text.trimEnd t) = outputLine v.text := by rw [valueLine, hcompile]
  have hbindings : bindingLines (Text.trimEnd t) =
      String.join ((compileWith t .empty).2.bindings.map Binding.listing) := by
    have hpair : compileWith t .empty = (.ok v, (compileWith t .empty).2) := Prod.ext h rfl
    rw [bindingLines, hwith, hpair]
  rw [run_text, runText, execute_eq, hcompile, output, hprogram, hvalue, hbindings]
  rfl

/-- **White space at the end of a file is immaterial.** Whatever is asked for, the
command line gives the same exit code, output and error output with it and without; and
a text that has a value ends with exit code 0 and that value, and with the variables it
leaves bound if they are asked for. -/
theorem trailing_white_space :
    (∀ (o : Options) (t w : String), (∀ c ∈ w.toList, Text.isWhiteSpace c = true) →
      o.run (some (t ++ w).toUTF8) = o.run (some t.toUTF8)) ∧
    ∀ (o : Options) (t : String) (v : Value), compile t = .ok v →
      o.run (some t.toUTF8) =
        ⟨0, listing o.tokens (tokenLines (Text.trimEnd t)) ++ listing o.ast (programLines t) ++
          outputLine v.text ++
          listing o.verbose (String.join ((compileWith t .empty).2.bindings.map Binding.listing)),
          ""⟩ :=
  ⟨fun o t _ hw => o.run_append_white_space t hw, fun o _ _ h => o.run_of_compile h⟩

/-- A program with a blank and a tab after it, and then a line feed. -/
theorem trailing_white_space_tab :
    let o : Options := ⟨false, false, true, "main.begin"⟩
    let t := "begin\nx = 1\nend \t"
    o.run (some (t ++ "\n").toUTF8) = o.run (some t.toUTF8) ∧ ∃ v, compile t = .ok v ∧
      o.run (some t.toUTF8) =
        ⟨0, "" ++ "" ++ outputLine v.text ++
          String.join ((compileWith t .empty).2.bindings.map Binding.listing), ""⟩ := by
  intro o t
  have hok : (compile t).toOption.isSome = true := by decide +kernel
  cases hv : compile t with
  | error d =>
    rw [hv] at hok
    cases hok
  | ok v =>
    have hw : ∀ c ∈ "\n".toList, Text.isWhiteSpace c = true := List.all_eq_true.mp rfl
    exact ⟨trailing_white_space.1 o t "\n" hw, v, rfl, trailing_white_space.2 o t v hv⟩

end Options

end AssignLang
