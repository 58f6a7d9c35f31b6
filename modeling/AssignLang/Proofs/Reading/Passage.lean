/-
# Reading token by token

`Reading.steps` reads a list of tokens that all can stand where they stand. A
run over a text is such a passage up to the first end of the text, or up to the
first token that the reading refuses; `parse` succeeds exactly when the passage
over all tokens before the end comes to the place after `end`, and otherwise its
diagnostic is about the token that ended the passage.

Key definitions: `beforeEnd`, `Reading.steps`, `Reading.Refuses`,
`Reading.program`.
Key theorems: `parse_eq_ok_iff`, `Reading.run_eq_error`.
-/
import AssignLang.Program.Reading

namespace AssignLang

/-- The tokens before the first end of the text. -/
def beforeEnd (ts : List Token) : List Token := ts.takeWhile fun t => t.kind != .eof

namespace Reading

/-- What was read, after some more tokens. -/
def steps (r : Reading) (w : List Token) : Except Cause Reading := w.foldlM step r

/-- The finished statements. -/
def program (r : Reading) : Program := ⟨r.definitions.toList, r.assignments.toList⟩

/-- The reading cannot go on with the token, or cannot end with it if it is the
end of the text. -/
def Refuses (r : Reading) (t : Token) (cause : Cause) : Prop :=
  if t.kind = .eof then r.finish t = .error cause else r.step t = .error cause

@[simp] theorem steps_nil (r : Reading) : r.steps [] = .ok r := rfl

theorem steps_cons_of_ok {r r' : Reading} {t : Token} (h : r.step t = .ok r') (w : List Token) :
    r.steps (t :: w) = r'.steps w := by
  rw [steps, List.foldlM_cons, h]
  rfl

theorem steps_cons_of_error {r : Reading} {t : Token} {cause : Cause} (h : r.step t = .error cause)
    (w : List Token) : r.steps (t :: w) = .error cause := by
  rw [steps, List.foldlM_cons, h]
  rfl

theorem steps_append_of_ok {r r' : Reading} {u : List Token} (h : r.steps u = .ok r')
    (w : List Token) : r.steps (u ++ w) = r'.steps w := by
  unfold steps at h ⊢
  rw [List.foldlM_append, h]
  rfl

theorem steps_singleton (r : Reading) (t : Token) : r.steps [t] = r.step t := by
  rw [steps, List.foldlM_cons]
  cases r.step t <;> rfl

theorem finish_eq_ok_iff {r : Reading} {t : Token} {p : Program} :
    r.finish t = .ok p ↔ r.phase = .ended ∧ p = r.program := by
  obtain ⟨ds, as, phase⟩ := r
  cases phase <;> simp [finish, reject, program, eq_comm]

theorem mapError_eq_ok_iff {α β γ : Type} {x : Except α γ} {f : α → β} {c : γ} :
    x.mapError f = .ok c ↔ x = .ok c := by
  constructor
  · intro h
    cases x with
    | ok a =>
      cases h
      rfl
    | error e => cases h
  · rintro rfl
    rfl

theorem run_eq_ok_iff {last : Token} {p : Program} : ∀ {passed : List Token} {r : Reading}
    (ts : List Token), run last passed r ts = .ok p ↔
      ∃ r', r.steps (beforeEnd ts) = .ok r' ∧ r'.phase = .ended ∧ p = r'.program
  | passed, r, [] => by
    have hend : run last passed r [] = .ok p ↔ r.finish last = .ok p := by
      rw [run, mapError_eq_ok_iff]
    simp [hend, finish_eq_ok_iff, beforeEnd]
  | passed, r, t :: ts => by
    by_cases ht : t.kind = .eof
    · have hend : run last passed r (t :: ts) = .ok p ↔ r.finish t = .ok p := by
        rw [run, if_pos ht, mapError_eq_ok_iff]
      simp [hend, finish_eq_ok_iff, beforeEnd, ht]
    · have hbefore : beforeEnd (t :: ts) = t :: beforeEnd ts := by simp [beforeEnd, ht]
      rw [run, if_neg ht, hbefore]
      cases hs : r.step t with
      | ok r' =>
        rw [steps_cons_of_ok hs]
        exact run_eq_ok_iff ts
      | error cause => simp [steps_cons_of_error hs]

/-- A run that fails comes to a token that it refuses, and the diagnostic is
about this token. -/
theorem run_eq_error {last : Token} (hlast : last.kind = .eof) {d : Diagnostic} :
    ∀ {passed : List Token} {r : Reading} (ts : List Token), run last passed r ts = .error d →
      ∃ w t r' cause, w ++ [t] <+: ts ++ [last] ∧ (∀ x ∈ w, x.kind ≠ .eof) ∧ r.steps w = .ok r' ∧
        r'.Refuses t cause ∧ d = fault (w.reverse ++ passed) t cause
  | passed, r, [], h => by
    rw [run] at h
    cases hf : r.finish last with
    | ok p =>
      rw [hf] at h
      cases h
    | error cause =>
      rw [hf] at h
      cases h
      exact ⟨[], last, r, cause, by simp, by simp, rfl, by simp [Refuses, hlast, hf], rfl⟩
  | passed, r, t :: ts, h => by
    by_cases ht : t.kind = .eof
    · rw [run, if_pos ht] at h
      cases hf : r.finish t with
      | ok p =>
        rw [hf] at h
        cases h
      | error cause =>
        rw [hf] at h
        cases h
        exact ⟨[], t, r, cause, by simp, by simp, rfl, by simp [Refuses, ht, hf], rfl⟩
    · rw [run, if_neg ht] at h
      cases hs : r.step t with
      | ok r' =>
        rw [hs] at h
        obtain ⟨w, x, r'', cause, hpre, hw, hsteps, hx, hd⟩ := run_eq_error hlast ts h
        refine ⟨t :: w, x, r'', cause, by simpa using hpre, ?_, ?_, hx, by simpa using hd⟩
        · simpa [ht] using hw
        · rw [steps_cons_of_ok hs, hsteps]
      | error cause =>
        rw [hs] at h
        cases h
        exact ⟨[], t, r, cause, by simp, by simp, rfl, by simp [Refuses, ht, hs], rfl⟩

end Reading

/-- **A text is a program exactly when the reading comes from its first token to
`end`.** -/
theorem parse_eq_ok_iff {ts : List Token} {p : Program} :
    parse ts = .ok p ↔ ∃ r, Reading.start.steps (beforeEnd ts) = .ok r ∧ r.phase = .ended ∧
      p = r.program :=
  Reading.run_eq_ok_iff ts

end AssignLang
