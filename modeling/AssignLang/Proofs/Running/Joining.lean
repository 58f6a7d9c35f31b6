/-
# Splitting a program over several runs

Two bodies joined by a line feed do in a scope what the first does in it and the
second in what the first left. The second is not run if the first fails; a
diagnostic of the second stands behind the first; and the value is that of the
second, or of the first if the second assigns nothing.

Key theorems: `Program.run_append`, `compileWith_joined`.
-/
import AssignLang.Proofs.Reading.Joining
import AssignLang.Proofs.Running.Places
import AssignLang.Proofs.Running.Sequence

namespace AssignLang

/-- **A program with another one added** runs the other one in the scope it leaves. -/
theorem Program.run_append {f : Token → Token} {g : Diagnostic → Diagnostic} (h : Relocates f g)
    (p q : Program) (s : Scope) :
    (p.append (q.mapTokens f)).run s =
      match p.run s with
      | (.error d, s') => (.error d, s')
      | (.ok v, s') =>
        match q.run s' with
        | (.error d, s'') => (.error (g d), s'')
        | (.ok w, s'') => (.ok (if q.assignments.isEmpty then v else w), s'') := by
  have hsplit := Assignment.runAll_append (q.mapTokens f).assignments .null p.assignments s
  unfold run
  rw [append, hsplit]
  rcases Assignment.runAll .null p.assignments s with ⟨d | v, s'⟩
  · rfl
  · dsimp only
    rw [mapTokens, Assignment.runAll_mapTokens h, Assignment.runAll_last]
    rcases Assignment.runAll .null q.assignments s' with ⟨d | w, s''⟩ <;> rfl

/-- Moving tokens keeps their kinds and texts and moves the diagnostics at them. -/
theorem relocates_behind (body : String) :
    Relocates (Token.behind body) (Diagnostic.behind body) :=
  ⟨fun _ => ⟨rfl, rfl⟩, fun _ _ => rfl⟩

/-- **Splitting a program over several runs on one scope is the same as running it
whole.** -/
theorem compileWith_joined {first second : String} {ts us : List Token} {p q : Program}
    (hp : tokenize (block first) = .ok ts ∧ parse ts = .ok p)
    (hq : tokenize (block second) = .ok us ∧ parse us = .ok q)
    (horder : p.assignments = [] ∨ q.definitions = []) :
    (∃ vs, tokenize (block (joined first second)) = .ok vs ∧
      Spliced (Token.behind first) ts us vs ∧
      parse vs = .ok (p.append (q.mapTokens (Token.behind first)))) ∧
    ∀ s, compileWith (block (joined first second)) s =
      match compileWith (block first) s with
      | (.error d, s') => (.error d, s')
      | (.ok v, s') =>
        match compileWith (block second) s' with
        | (.error d, s'') => (.error (d.behind first), s'')
        | (.ok w, s'') => (.ok (if q.assignments.isEmpty then v else w), s'') := by
  have hmove := relocates_behind first
  obtain ⟨vs, hvs, hspliced⟩ := tokenize_joined hp.1 hq.1
  have hparse := parse_spliced hmove.keeps hspliced hp.2 hq.2 horder
  have hfirst := readProgram_eq_ok_iff.mpr ⟨ts, hp⟩
  have hsecond := readProgram_eq_ok_iff.mpr ⟨us, hq⟩
  have hwhole := readProgram_eq_ok_iff.mpr ⟨vs, hvs, hparse⟩
  refine ⟨⟨vs, hvs, hspliced, hparse⟩, fun s => ?_⟩
  rw [compileWith_of_ok hwhole, compileWith_of_ok hfirst, Program.run_append hmove]
  simp only [compileWith_of_ok hsecond]

/-- The second body assigns what the first one bound. -/
theorem compileWith_joined_names :
    ∃ ts us p q, (tokenize (block "x = y") = .ok ts ∧ parse ts = .ok p) ∧
      (tokenize (block "z = x") = .ok us ∧ parse us = .ok q) ∧
      (p.assignments = [] ∨ q.definitions = []) ∧
      (∃ vs, tokenize (block (joined "x = y" "z = x")) = .ok vs ∧
        Spliced (Token.behind "x = y") ts us vs ∧
        parse vs = .ok (p.append (q.mapTokens (Token.behind "x = y")))) ∧
      ∀ s, compileWith (block (joined "x = y" "z = x")) s =
        match compileWith (block "x = y") s with
        | (.error d, s') => (.error d, s')
        | (.ok v, s') =>
          match compileWith (block "z = x") s' with
          | (.error d, s'') => (.error (d.behind "x = y"), s'')
          | (.ok w, s'') => (.ok (if q.assignments.isEmpty then v else w), s'') := by
  obtain ⟨ts, p, hp, -⟩ :=
    exists_of_any_readProgram (block "x = y") (fun _ => true) (by decide +kernel)
  obtain ⟨us, q, hq, hnone⟩ :=
    exists_of_any_readProgram (block "z = x") (fun q => q.definitions.isEmpty) (by decide +kernel)
  have horder : p.assignments = [] ∨ q.definitions = [] := .inr (List.isEmpty_iff.mp hnone)
  exact ⟨ts, us, p, q, hp, hq, horder, compileWith_joined hp hq horder⟩

end AssignLang
