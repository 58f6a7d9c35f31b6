/-
# Bodies one after the other

The lines of a second body can follow those of a first one if the first has no
assignments or the second no definitions; blank lines between them belong to the
last line of the first. So the tokens of two programs, without the `end` of the
first and the `begin` of the second, are read as the program that has the
definitions of both and the assignments of both.

Key definitions: `Body.append`, `Program.append`.
Key theorems: `Body.tokens_append`, `Body.program?_append`,
`Derivation.exists_append`, `parse_spliced`.
-/
import AssignLang.Proofs.Lexing.Seam
import AssignLang.Proofs.Reading.Language
import AssignLang.Proofs.Reading.Places

namespace AssignLang

/-- The definitions of both programs and then the assignments of both. -/
def Program.append (p q : Program) : Program :=
  ⟨p.definitions ++ q.definitions, p.assignments ++ q.assignments⟩

namespace Body

/-- The tokens of a body behind its first line. -/
def lines (b : Body) : List Token :=
  Line.allTokens DefinitionLine.tokens b.definitions ++
    Line.allTokens AssignmentLine.tokens b.assignments

/-- The body with the lines of another one added. -/
def append (b c : Body) : Body :=
  ⟨b.opening, b.definitions ++ c.definitions, b.assignments ++ c.assignments⟩

theorem tokens_eq (b : Body) : b.tokens = b.opening.tokens (fun t => [t.1]) ++ b.lines := by
  rw [tokens, lines, List.append_assoc]

/-- The added lines stand behind the others if no definition comes after an
assignment. -/
theorem tokens_append {b c : Body} (h : b.assignments = [] ∨ c.definitions = []) :
    (b.append c).tokens = b.tokens ++ c.lines := by
  rcases h with h | h
  · simp [tokens, lines, append, h, Line.allTokens]
  · simp [tokens, lines, append, h, Line.allTokens]

theorem program?_append {b c : Body} {p q : Program} (hb : b.program? = some p)
    (hc : c.program? = some q) : (b.append c).program? = some (p.append q) := by
  obtain ⟨hbd, hba⟩ := program?_eq_some_iff.mp hb
  obtain ⟨hcd, hca⟩ := program?_eq_some_iff.mp hc
  refine program?_eq_some_iff.mpr ⟨?_, ?_⟩
  · unfold DefinitionLine.definitions? at hbd hcd ⊢
    rw [append, List.mapM_append, hbd, hcd]
    rfl
  · unfold AssignmentLine.assignments? at hba hca ⊢
    rw [append, List.mapM_append, hba, hca]
    rfl

/-- Blank lines belong to the last line of a body. -/
theorem exists_blanks : ∀ {w : List Token} (b : Body), (∀ t ∈ w, t.kind = .newline) →
    ∃ b' : Body, b'.tokens = b.tokens ++ w ∧ b'.program? = b.program?
  | [], b, _ => ⟨b, (List.append_nil _).symm, rfl⟩
  | t :: w, b, hw => by
    obtain ⟨b', htokens, hprogram⟩ := b.exists_blank t (hw t List.mem_cons_self)
    obtain ⟨b'', htokens', hprogram'⟩ :=
      exists_blanks b' fun u hu => hw u (List.mem_cons_of_mem t hu)
    refine ⟨b'', ?_, hprogram'.trans hprogram⟩
    rw [htokens', htokens, List.append_assoc]
    rfl

theorem assignments_eq_nil {b : Body} {p : Program} (hb : b.program? = some p)
    (h : p.assignments = []) : b.assignments = [] := by
  have has := (program?_eq_some_iff.mp hb).2
  rw [h] at has
  exact eq_nil_of_mapM_eq_nil has

theorem definitions_eq_nil {b : Body} {p : Program} (hb : b.program? = some p)
    (h : p.definitions = []) : b.definitions = [] := by
  have hds := (program?_eq_some_iff.mp hb).1
  rw [h] at hds
  exact eq_nil_of_mapM_eq_nil hds

end Body

/-- **One program after the other.** The second one keeps what stands behind the
line feed of its first line. -/
theorem Derivation.exists_append {d d' : Derivation} {p q : Program} (hd : d.program? = some p)
    (hd' : d'.program? = some q) (h : p.assignments = [] ∨ q.definitions = []) {x n : Token}
    {rest : List Token} (hrest : d'.tokens = x :: n :: rest) :
    ∃ j : Derivation, j.tokens = d.body.tokens ++ rest ∧ j.program? = some (p.append q) := by
  obtain ⟨t, w, hbreaks, -⟩ := d'.body.opening.exists_break
  rw [tokens, Body.tokens_eq, Line.tokens, hbreaks] at hrest
  simp only [List.cons_append, List.nil_append, List.append_assoc, List.cons.injEq] at hrest
  obtain ⟨-, -, rfl⟩ := hrest
  have hblank : ∀ u ∈ w, u.kind = .newline := by
    intro u hu
    apply d'.body.opening.breaks_kind
    rw [hbreaks]
    exact List.mem_cons_of_mem t hu
  obtain ⟨b, htokens, hb⟩ := d.body.exists_blanks hblank
  have hprogram : b.program? = some p := hb.trans hd
  have horder : b.assignments = [] ∨ d'.body.definitions = [] :=
    h.imp (Body.assignments_eq_nil hprogram) (Body.definitions_eq_nil hd')
  refine ⟨⟨b.append d'.body, d'.closing⟩, ?_, Body.program?_append hprogram hd'⟩
  rw [tokens, Body.tokens_append horder, htokens, List.append_assoc, List.append_assoc]

/-- **Reading one program after the other.** -/
theorem parse_spliced {f : Token → Token} (hf : KeepsLexeme f) {ts us vs : List Token}
    {p q : Program} (h : Spliced f ts us vs) (hp : parse ts = .ok p) (hq : parse us = .ok q)
    (horder : p.assignments = [] ∨ q.definitions = []) :
    parse vs = .ok (p.append (q.mapTokens f)) := by
  cases h with
  | @intro front back e z b n hfront hend hbegin =>
    have hq' := parse_mapTokens hf hq
    rw [List.map_cons, List.map_cons] at hq'
    obtain ⟨d, hd, hdp⟩ := parse_eq_ok_iff_derivation.mp hp
    obtain ⟨d', hd', hdq⟩ := parse_eq_ok_iff_derivation.mp hq'
    have hlast : beforeEnd [e, z] = [e] := by simp [beforeEnd, hend]
    have hfirst : beforeEnd (f b :: f n :: back.map f) = f b :: f n :: beforeEnd (back.map f) := by
      simp [beforeEnd, (hf b).1, (hf n).1, hbegin]
    rw [beforeEnd_append hfront, hlast] at hd
    rw [hfirst] at hd'
    obtain ⟨rfl, -⟩ := List.append_inj' hd rfl
    have horder' : p.assignments = [] ∨ (q.mapTokens f).definitions = [] :=
      horder.imp_right fun h => by rw [Program.mapTokens, h, List.map_nil]
    obtain ⟨j, hj, hjp⟩ := d.exists_append hdp hdq horder' hd'
    refine parse_eq_ok_iff_derivation.mpr ⟨j, ?_, hjp⟩
    rw [hj, beforeEnd_append hfront]

end AssignLang
