/-
# The command line and the stages

The command line prints between the stages, so it goes through them on its own.
What it prints, and how it ends, is nevertheless what the stages say about the
text of the file without the white space at its end: each part of the output is
a text of its own, there whenever its stage succeeds and it is asked for, and
the exit code and the error output are those of `compile` whatever is asked for.

A file that cannot be read, or is not in UTF-8, has no such text and is not
covered.

Key definitions: `tokenLines`, `programLines`, `valueLine`, `bindingLines`,
`Options.output`, `Trims`, `Options.Agrees`.
Key theorems: `Options.execute_eq`, `Options.run_agrees`.
-/
import AssignLang.CommandLine

namespace AssignLang

/-! ### The parts of the output -/

/-- The lines of the tokens, if a text has tokens. -/
def tokenLines (source : String) : String :=
  match tokenize source with
  | .ok ts => String.join (ts.map Token.listing)
  | .error _ => ""

/-- The lines of the program, if a text has one. -/
def programLines (source : String) : String :=
  match readProgram source with
  | .ok p => outputLine p.text
  | .error _ => ""

/-- The line of the value, if a text has one. -/
def valueLine (source : String) : String :=
  match compile source with
  | .ok v => outputLine v.text
  | .error _ => ""

/-- The lines of the variables that a text leaves bound, if it has a value. -/
def bindingLines (source : String) : String :=
  match compileWith source .empty with
  | (.ok _, s) => String.join (s.bindings.map Binding.listing)
  | (.error _, _) => ""

namespace Options

/-- Every part that is asked for, in the order of the stages. The value is always
asked for. -/
def output (o : Options) (source : String) : String :=
  listing o.tokens (tokenLines source) ++ listing o.ast (programLines source) ++
    valueLine source ++ listing o.verbose (bindingLines source)

theorem listing_empty (asked : Bool) : listing asked "" = "" := ite_self _

/-- The diagnostic of a result that has one. -/
def failure : Except Diagnostic Value → Option Diagnostic
  | .ok _ => none
  | .error d => some d

/-- A text that has no program has no value either, and no variables. -/
theorem output_of_readProgram_error (o : Options) {source : String} {d : Diagnostic}
    (h : readProgram source = .error d) :
    o.output source = listing o.tokens (tokenLines source) ∧ compile source = .error d := by
  have hwith := compileWith_of_error h .empty
  have hcompile : compile source = .error d := by rw [compile, hwith]
  refine ⟨?_, hcompile⟩
  simp only [output, programLines, h, valueLine, hcompile, bindingLines, hwith, listing_empty,
    String.append_empty]

/-- **The command line goes through the stages that `compile` goes through.** -/
theorem execute_eq (o : Options) (source : String) :
    o.execute source = (o.output source, failure (compile source)) := by
  unfold execute
  cases htokens : tokenize source with
  | error d =>
    have hread := readProgram_of_error htokens
    obtain ⟨houtput, hcompile⟩ := output_of_readProgram_error o hread
    rw [houtput, hcompile, tokenLines, htokens, listing_empty]
    rfl
  | ok ts =>
    have hread := readProgram_of_ok htokens
    have hlines : tokenLines source = String.join (ts.map Token.listing) := by
      rw [tokenLines, htokens]
    cases hparse : parse ts with
    | error d =>
      obtain ⟨houtput, hcompile⟩ := output_of_readProgram_error o (hread.trans hparse)
      simp only [hparse, houtput, hcompile, hlines, failure]
    | ok p =>
      have hprogram := hread.trans hparse
      have hwith := compileWith_of_ok hprogram .empty
      have hcompile : compile source = (p.run .empty).1 := by rw [compile, hwith]
      simp only [hparse, output, hlines, programLines, hprogram, valueLine, hcompile, bindingLines,
        hwith]
      rcases p.run .empty with ⟨d | v, s⟩
      · simp only [failure, listing_empty, String.append_empty]
      · rfl

end Options

/-! ### The text of a file -/

/-- `source` is `contents` without the white space at its end: what is missing is
white space, and nothing that ends before it leaves only white space behind. -/
structure Trims (contents source : String) : Prop where
  rest : ∃ w, contents.toList = source.toList ++ w ∧ ∀ c ∈ w, Text.isWhiteSpace c = true
  longest : ∀ u w, contents.toList = u ++ w → (∀ c ∈ w, Text.isWhiteSpace c = true) →
    source.toList <+: u

theorem trims_trimEnd (contents : String) : Trims contents (Text.trimEnd contents) where
  rest := by
    obtain ⟨w, hw, happend⟩ := Text.trimEnd_append_rest contents.toList
    exact ⟨w, by rw [Text.trimEnd, String.toList_ofList, happend], hw⟩
  longest := by
    intro u w hcontents hw
    -- trimming does not see `w`, so it only shortens `u`
    obtain ⟨v, -, hv⟩ := Text.trimEnd_append_rest u
    rw [Text.trimEnd, String.toList_ofList, hcontents, Text.trimEnd_append_of_all u w hw]
    exact ⟨v, hv⟩

/-- The bytes of a text are those of that text and of no other. -/
theorem fromUTF8?_toUTF8 (s : String) : String.fromUTF8? s.toUTF8 = some s := by
  unfold String.fromUTF8?
  rw [String.toUTF8_eq_toByteArray, dif_pos s.isValidUTF8]
  rfl

namespace Options

/-- What a run with the options `o` leaves is what the stages say about `source`. -/
structure Agrees (o : Options) (source : String) (r : Outcome) : Prop where
  code_eq_zero_iff : r.code = 0 ↔ ∃ v, compile source = .ok v
  stdout_eq : r.stdout = o.output source
  stderr_of_ok : ∀ v, compile source = .ok v → r.stderr = ""
  stderr_of_error : ∀ d, compile source = .error d → r.stderr = d.report o.path source
  /-- The tokens stay whatever becomes of the later stages. -/
  tokens_kept : ∀ ts, o.tokens = true → tokenize source = .ok ts →
    (String.join (ts.map Token.listing)).toList <+: r.stdout.toList
  /-- The program stays whatever becomes of the run. -/
  program_kept : ∀ p, o.ast = true → readProgram source = .ok p →
    ((listing o.tokens (tokenLines source)) ++ outputLine p.text).toList <+: r.stdout.toList

theorem runText_code (o : Options) (contents : String) :
    (o.runText contents).code =
      if (failure (compile (Text.trimEnd contents))).isSome then 1 else 0 := by
  rw [runText, execute_eq]
  cases compile (Text.trimEnd contents) <;> rfl

theorem runText_stdout (o : Options) (contents : String) :
    (o.runText contents).stdout = o.output (Text.trimEnd contents) := by
  rw [runText, execute_eq]
  cases compile (Text.trimEnd contents) <;> rfl

theorem runText_stderr (o : Options) (contents : String) :
    (o.runText contents).stderr =
      (failure (compile (Text.trimEnd contents))).elim ""
        fun d => d.report o.path (Text.trimEnd contents) := by
  rw [runText, execute_eq]
  cases compile (Text.trimEnd contents) <;> rfl

theorem runText_agrees (o : Options) (contents : String) :
    o.Agrees (Text.trimEnd contents) (o.runText contents) where
  code_eq_zero_iff := by
    rw [runText_code]
    cases compile (Text.trimEnd contents) <;> simp [failure]
  stdout_eq := o.runText_stdout contents
  stderr_of_ok := by
    intro v h
    rw [runText_stderr, h]
    rfl
  stderr_of_error := by
    intro d h
    rw [runText_stderr, h]
    rfl
  tokens_kept := by
    intro ts hasked h
    rw [runText_stdout, output, tokenLines, h, hasked]
    simp only [listing, String.toList_append, List.append_assoc]
    exact List.prefix_append _ _
  program_kept := by
    intro p hasked h
    rw [runText_stdout, output, programLines, h, hasked]
    simp only [listing, String.toList_append, List.append_assoc]
    exact ⟨_, by simp only [List.append_assoc]; rfl⟩

/-- **The command line agrees with the stages.** The file is the text `contents`;
what is run is that text without the white space at its end. The options other than
the path change neither the exit code nor the error output. -/
theorem run_agrees (o : Options) (contents : String) :
    ∃ source, Trims contents source ∧ o.Agrees source (o.run (some contents.toUTF8)) ∧
      ∀ tokens ast verbose,
        (Options.run ⟨tokens, ast, verbose, o.path⟩ (some contents.toUTF8)).code =
          (o.run (some contents.toUTF8)).code ∧
        (Options.run ⟨tokens, ast, verbose, o.path⟩ (some contents.toUTF8)).stderr =
          (o.run (some contents.toUTF8)).stderr := by
  have hrun : ∀ o : Options, o.run (some contents.toUTF8) = o.runText contents := by
    intro o
    simp only [run, Option.bind_some, fromUTF8?_toUTF8]
  refine ⟨Text.trimEnd contents, trims_trimEnd contents, ?_, fun tokens ast verbose => ?_⟩
  · rw [hrun]
    exact o.runText_agrees contents
  · simp only [hrun, runText_code, runText_stderr, and_self]

end Options

end AssignLang
