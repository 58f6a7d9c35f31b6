/-
# Blank lines

Behind a line feed that can stand where it stands a line begins, and one more line
feed leaves it at that. So of the line feeds that follow one another only the first
can be refused. Nor can any of them be seen, so which of them were read makes no
difference to where a diagnostic points, but for the first of all tokens, which is the
first of its run. Tokens are read as if every run of line feeds were its first one.

Key definitions: `withoutBlankLines`.
Key theorems: `Reading.Next.phase_of_newline`, `Reading.run_congr`,
`Reading.run_destutter`, `parse_withoutBlankLines`.
-/
import Mathlib.Data.List.Destutter
import AssignLang.Proofs.Reading.Ending

namespace AssignLang

/-- A token that is kept right after another one: not both are line feeds. -/
def Token.NoBlankLine (t u : Token) : Prop := ¬ (t.kind = .newline ∧ u.kind = .newline)

instance : DecidableRel Token.NoBlankLine := fun t u =>
  inferInstanceAs (Decidable (¬ (t.kind = .newline ∧ u.kind = .newline)))

/-- The tokens with every run of line feeds replaced by its first one. -/
def withoutBlankLines (ts : List Token) : List Token := ts.destutter Token.NoBlankLine

/-- A token that is no line feed is kept, and so is what is kept of those after it. -/
theorem withoutBlankLines_cons {t : Token} (ht : t.kind ≠ .newline) (ts : List Token) :
    withoutBlankLines (t :: ts) = t :: withoutBlankLines ts := by
  cases ts with
  | nil => rfl
  | cons u ts => exact List.destutter'_cons_pos _ fun h => ht h.1

/-- Of a run of line feeds the first is kept. -/
theorem withoutBlankLines_run {b : Token} {bs ts : List Token} (hb : b.kind = .newline)
    (hbs : ∀ t ∈ bs, t.kind = .newline) (hts : ∀ t ∈ ts.head?, t.kind ≠ .newline) :
    withoutBlankLines (b :: (bs ++ ts)) = b :: withoutBlankLines ts := by
  induction bs with
  | nil =>
    cases ts with
    | nil => rfl
    | cons t ts => exact List.destutter'_cons_pos _ fun h => hts t rfl h.2
  | cons c bs ih =>
    obtain ⟨hc, hrest⟩ := List.forall_mem_cons.mp hbs
    rw [← ih hrest]
    exact List.destutter'_cons_neg _ fun h => h ⟨hb, hc⟩

namespace Reading

/-- Behind a line feed a line begins. -/
theorem Next.phase_of_newline {r r' : Reading} {t : Token} (h : Next r t r')
    (ht : t.kind = .newline) : r'.phase = .line := by
  cases h with
  | heads | blank | names | wholes | assigned => rfl
  | leaf h => simp [Expr.leaf?, ht] at h
  | _ h => simp [ht, Kind.isOpening, Kind.isClosing, Kind.level?] at h

/-- A line feed where a line begins leaves the reading as it is. -/
theorem step_blank {r : Reading} {t : Token} (hr : r.phase = .line) (ht : t.kind = .newline) :
    r.step t = .ok r := by
  obtain ⟨ds, as, phase⟩ := r
  obtain rfl : phase = .line := hr
  exact (Next.blank ht).step_eq

/-! ### Tokens that cannot be seen -/

section
variable {last : Token} {passed passed' : List Token}
  (hpassed : passed.find? Token.isVisible = passed'.find? Token.isVisible)
include hpassed

theorem fault_congr (t : Token) (cause : Cause) : fault passed t cause = fault passed' t cause := by
  have hpoint : pointAt passed t = pointAt passed' t := by rw [pointAt, pointAt, hpassed]
  rw [fault, fault, hpoint]

theorem find?_cons_congr (t : Token) :
    (t :: passed).find? Token.isVisible = (t :: passed').find? Token.isVisible := by
  rw [List.find?_cons, List.find?_cons, hpassed]

end

/-- Of the tokens that were read only the last visible one has an influence. -/
theorem run_congr {last : Token} : ∀ {passed passed' : List Token} {r : Reading} (ts : List Token),
    passed.find? Token.isVisible = passed'.find? Token.isVisible →
      run last passed r ts = run last passed' r ts
  | passed, passed', r, [], h => by rw [run, run, funext (fault_congr h last)]
  | passed, passed', r, t :: ts, h => by
    rw [run, run, funext (fault_congr h t)]
    split
    · rfl
    · cases r.step t with
      | ok r' => exact run_congr ts (find?_cons_congr h t)
      | error cause => rfl

/-! ### Line feeds that follow one another -/

/-- A line feed after a line feed may be left out. -/
theorem run_blank {last t b : Token} (ht : t.kind = .newline) (hb : b.kind = .newline)
    (passed : List Token) (r : Reading) (ts : List Token) :
    run last passed r (t :: b :: ts) = run last passed r (t :: ts) := by
  have hnot : ∀ u : Token, u.kind = .newline → u.kind ≠ .eof := by simp_all
  have hunseen : (b :: t :: passed).find? Token.isVisible = (t :: passed).find? Token.isVisible :=
    List.find?_cons_of_neg (by simp [Token.isVisible, hb])
  rw [run, run, if_neg (hnot t ht), if_neg (hnot t ht)]
  cases hs : r.step t with
  | error cause => rfl
  | ok r' =>
    have hline := (next_of_step hs).phase_of_newline ht
    dsimp only
    rw [run, if_neg (hnot b hb), step_blank hline hb]
    exact run_congr ts hunseen

/-- **Tokens are read as without blank lines.** -/
theorem run_destutter {last : Token} : ∀ (ts passed : List Token) (r : Reading) (t : Token),
    run last passed r (ts.destutter' Token.NoBlankLine t) = run last passed r (t :: ts)
  | [], _, _, _ => rfl
  | u :: ts, passed, r, t => by
    rw [List.destutter'_cons]
    by_cases hkeep : t.NoBlankLine u
    · rw [if_pos hkeep, run, run]
      split
      · rfl
      · cases r.step t with
        | ok r' => exact run_destutter ts (t :: passed) r' u
        | error cause => rfl
    · obtain ⟨ht, hu⟩ := not_not.mp hkeep
      rw [if_neg hkeep, run_destutter ts passed r t, run_blank ht hu]

end Reading

/-- **Blank lines are irrelevant.** Tokens with every run of line feeds replaced by its
first one are read as the same program, or refused with the same diagnostic. -/
theorem parse_withoutBlankLines (ts : List Token) : parse (withoutBlankLines ts) = parse ts := by
  cases ts with
  | nil => rfl
  | cons t ts =>
    calc parse (withoutBlankLines (t :: ts))
        = Reading.start.run (Token.endAfter (withoutBlankLines (t :: ts))) [] (t :: ts) :=
          Reading.run_destutter ts [] .start t
      _ = parse (t :: ts) :=
          Reading.run_start_eq (Token.kind_endAfter _) (Token.kind_endAfter _) (List.cons_ne_nil t ts)

end AssignLang
