/-
# Programs do not show the forms of brackets

Of a bracket a reading looks at nothing but whether it opens or closes, and of a
program nothing shows a bracket. So the tokens of two texts that are the same but for
the forms of their brackets are read side by side: a bracket of either form can stand
in a place or none can, and where the reading of the one stops, that of the other
does (`parse_roundForm`). What a diagnostic says may quote the bracket; its place is the
same.

Key definitions: `Diagnostic.place`.
Key theorems: `Reading.next_opening_iff`, `Reading.next_closing_iff`,
`Reading.step_roundForm`, `Reading.run_roundForm`, `parse_roundForm`,
`brackets_interchangeable`.
-/
import AssignLang.Proofs.Lexing.BracketForms
import AssignLang.Proofs.Reading.Equality

namespace AssignLang

/-- Where a diagnostic stands. -/
def Diagnostic.place (d : Diagnostic) : Span × Position := (d.span, d.position)

/-! ### One token -/

theorem Token.roundForm_place (t : Token) :
    t.roundForm.span = t.span ∧ t.roundForm.start = t.start := by
  unfold Token.roundForm
  split <;> exact ⟨rfl, rfl⟩

theorem Token.isVisible_roundForm (t : Token) : t.roundForm.isVisible = t.isVisible := by
  obtain ⟨hnewline, heof⟩ := t.roundForm_kind_iff
  rw [Bool.eq_iff_iff]
  simp [isVisible, hnewline, heof]

namespace Reading

section
variable {r r' : Reading} {t : Token}

/-- An opening bracket can stand where an operand must come, whatever its form. -/
theorem next_opening_iff (ht : t.kind.isOpening = true) :
    Next r t r' ↔ ∃ ds as head f outer, r = ⟨ds, as, .operand head f outer⟩ ∧
      r' = ⟨ds, as, .operand head .empty (f :: outer)⟩ := by
  constructor
  · intro h
    cases h with
    | opening h => exact ⟨_, _, _, _, _, rfl, rfl⟩
    | _ => grind [Kind.isOpening, Kind.isClosing, Kind.level?, Expr.leaf?]
  · rintro ⟨ds, as, head, f, outer, rfl, rfl⟩
    exact .opening ht

/-- A closing bracket can stand after an operand in brackets, whatever its form. -/
theorem next_closing_iff (ht : t.kind.isClosing = true) :
    Next r t r' ↔ ∃ ds as head f next outer e, r = ⟨ds, as, .operator head f (next :: outer) e⟩ ∧
      r' = ⟨ds, as, .operator head next outer (f.closeSum e)⟩ := by
  constructor
  · intro h
    cases h with
    | closing h => exact ⟨_, _, _, _, _, _, _, rfl, rfl⟩
    | _ => grind [Kind.isOpening, Kind.isClosing, Kind.level?, Expr.leaf?]
  · rintro ⟨ds, as, head, f, next, outer, e, rfl, rfl⟩
    exact .closing ht

/-- **A bracket of either form can stand in a place or none can.** -/
theorem step_roundForm : r.step t.roundForm = .ok r' ↔ r.step t = .ok r' := by
  rw [step_eq_ok_iff, step_eq_ok_iff]
  rcases t.roundForm_cases with ⟨h, h'⟩ | ⟨h, h'⟩ | h
  · rw [next_opening_iff (by rw [h']; rfl), next_opening_iff (by rw [h]; rfl)]
  · rw [next_closing_iff (by rw [h']; rfl), next_closing_iff (by rw [h]; rfl)]
  · rw [h]

end

/-! ### Runs -/

theorem pointAt_roundForm (passed : List Token) (t : Token) :
    pointAt (passed.map Token.roundForm) t.roundForm = (pointAt passed t).roundForm := by
  have hvisible : Token.isVisible ∘ Token.roundForm = Token.isVisible :=
    funext Token.isVisible_roundForm
  rw [pointAt, pointAt, t.isVisible_roundForm, List.find?_map, hvisible]
  split
  · rfl
  · cases passed.find? Token.isVisible <;> rfl

theorem place_fault_roundForm (passed : List Token) (t : Token) (cause cause' : Cause) :
    (fault (passed.map Token.roundForm) t.roundForm cause).place = (fault passed t cause').place := by
  obtain ⟨hspan, hstart⟩ := (pointAt passed t).roundForm_place
  simp only [fault, Diagnostic.place, pointAt_roundForm, hspan, hstart]

theorem place_mapError_roundForm (passed : List Token) (t : Token) (x : Except Cause Program) :
    ((x.mapError (fault (passed.map Token.roundForm) t.roundForm)).mapError Diagnostic.place) =
      (x.mapError (fault passed t)).mapError Diagnostic.place := by
  cases x with
  | ok p => rfl
  | error cause => exact congrArg Except.error (place_fault_roundForm passed t cause cause)

/-- **Tokens with round brackets are read alike**, and diagnostics are at the same
places. -/
theorem run_roundForm {last : Token} (hlast : last.kind = .eof) :
    ∀ (ts passed : List Token) (r : Reading),
      (run last (passed.map Token.roundForm) r (ts.map Token.roundForm)).mapError Diagnostic.place =
        (run last passed r ts).mapError Diagnostic.place
  | [], passed, r => by
    have hself : last.roundForm = last :=
      Token.roundForm_eq_self (by rw [hlast]; decide) (by rw [hlast]; decide)
    have hplace := place_mapError_roundForm passed last (r.finish last)
    rw [hself] at hplace
    rw [List.map_nil, run, run, hplace]
  | t :: ts, passed, r => by
    rw [List.map_cons, run, run]
    by_cases ht : t.kind = .eof
    · have hself : t.roundForm = t :=
        Token.roundForm_eq_self (by rw [ht]; decide) (by rw [ht]; decide)
      have hplace := place_mapError_roundForm passed t (r.finish t)
      rw [hself] at hplace ⊢
      rw [if_pos ht, if_pos ht, hplace]
    · rw [if_neg ht, if_neg (mt t.roundForm_kind_iff.2.mp ht)]
      cases hs : r.step t with
      | ok r' =>
        rw [step_roundForm.mpr hs]
        exact run_roundForm hlast ts (t :: passed) r'
      | error cause =>
        cases hs' : r.step t.roundForm with
        | ok r' =>
          rw [step_roundForm.mp hs'] at hs
          cases hs
        | error cause' =>
          exact congrArg Except.error (place_fault_roundForm passed t cause' cause)

end Reading

/-! ### Whole lists and texts -/

theorem Token.endAfter_roundForm (ts : List Token) :
    endAfter (ts.map Token.roundForm) = endAfter ts := by
  unfold endAfter
  rw [List.getLast?_map]
  cases ts.getLast? with
  | none => rfl
  | some t =>
    obtain ⟨hspan, hstart⟩ := t.roundForm_place
    simp only [Option.map_some, positionAfter, hspan, hstart, t.roundForm_kind_iff.1]

/-- Tokens with round brackets are the same program, or have a diagnostic at the same
place. -/
theorem parse_roundForm (ts : List Token) :
    (parse (ts.map Token.roundForm)).mapError Diagnostic.place =
      (parse ts).mapError Diagnostic.place := by
  rw [parse, parse, Token.endAfter_roundForm]
  exact Reading.run_roundForm (Token.kind_endAfter ts) ts [] .start

/-- **Round and square brackets are interchangeable**, each by itself, also where they do
not match. Two texts that are the same but for the forms of their brackets have the same
diagnostic if one of them has no tokens. Otherwise they are the same program, which is
equal to itself, and the two texts run alike in every scope; or neither is a program, and
both are reported for a token at the same place. -/
theorem brackets_interchangeable {s t : String}
    (h : List.Forall₂ SameButForm s.toList t.toList) :
    (∃ d, tokenize s = .error d ∧ tokenize t = .error d) ∨
      ∃ ts us, tokenize s = .ok ts ∧ tokenize t = .ok us ∧
        ((∃ p, parse ts = .ok p ∧ parse us = .ok p ∧ (p == p) = true ∧
            ∀ scope, compileWith s scope = compileWith t scope) ∨
          ∃ m m' span position, parse ts = .error ⟨.unexpectedToken m, span, position⟩ ∧
            parse us = .error ⟨.unexpectedToken m', span, position⟩) := by
  rcases tokenize_sameButForm h with hd | ⟨ts, us, hs, ht, heq⟩
  · exact .inl hd
  · refine .inr ⟨ts, us, hs, ht, ?_⟩
    have hplace : (parse ts).mapError Diagnostic.place = (parse us).mapError Diagnostic.place := by
      rw [← parse_roundForm, heq, parse_roundForm]
    cases hp : parse ts with
    | ok p =>
      rw [hp] at hplace
      have hq : parse us = .ok p := Reading.mapError_eq_ok_iff.mp hplace.symm
      refine .inl ⟨p, rfl, hq, Program.beq_self_of_parse hs hp, fun scope => ?_⟩
      rw [compileWith_of_ok (readProgram_eq_ok_iff.mpr ⟨ts, hs, hp⟩),
        compileWith_of_ok (readProgram_eq_ok_iff.mpr ⟨us, ht, hq⟩)]
    | error d =>
      cases hq : parse us with
      | ok q =>
        rw [hp, hq] at hplace
        cases hplace
      | error e =>
        rw [hp, hq] at hplace
        obtain ⟨hspan, hposition⟩ := Prod.mk.inj (Except.error.inj hplace)
        obtain ⟨m, hm⟩ := unexpectedToken_of_parse hs hp
        obtain ⟨m', hm'⟩ := unexpectedToken_of_parse ht hq
        refine .inr ⟨m, m', d.span, d.position, ?_, ?_⟩
        · rw [← hm]
        · rw [← hm', hspan, hposition]

/-- A text with brackets that do not match, and one with a bracket in the place of an
operand. -/
theorem brackets_interchangeable_mixed :
    (∃ ts us p, tokenize "begin\nx = (1 + [y))\nend" = .ok ts ∧
      tokenize "begin\nx = [1 + (y)]\nend" = .ok us ∧ parse ts = .ok p ∧ parse us = .ok p) ∧
    ∃ ts us m m' span position, tokenize "begin\nx = )\nend" = .ok ts ∧
      tokenize "begin\nx = ]\nend" = .ok us ∧
      parse ts = .error ⟨.unexpectedToken m, span, position⟩ ∧
      parse us = .error ⟨.unexpectedToken m', span, position⟩ := by
  constructor
  · have hforms : List.Forall₂ SameButForm "begin\nx = (1 + [y))\nend".toList
        "begin\nx = [1 + (y)]\nend".toList := by decide +kernel
    have hread : (tokenize "begin\nx = (1 + [y))\nend").toOption.any
        (fun ts => (parse ts).toOption.isSome) = true := by decide +kernel
    rcases brackets_interchangeable hforms with ⟨d, hd, -⟩ | ⟨ts, us, hts, hus, hsame⟩
    · rw [hd] at hread
      cases hread
    · have hsome : (parse ts).toOption.isSome = true := by rwa [hts] at hread
      rcases hsame with ⟨p, hp, hq, -⟩ | ⟨m, m', span, position, hd, -⟩
      · exact ⟨ts, us, p, hts, hus, hp, hq⟩
      · rw [hd] at hsome
        cases hsome
  · have hforms : List.Forall₂ SameButForm "begin\nx = )\nend".toList
        "begin\nx = ]\nend".toList := by decide +kernel
    have hrefused : (tokenize "begin\nx = )\nend").toOption.any
        (fun ts => (parse ts).toOption.isNone) = true := by decide +kernel
    rcases brackets_interchangeable hforms with ⟨d, hd, -⟩ | ⟨ts, us, hts, hus, hsame⟩
    · rw [hd] at hrefused
      cases hrefused
    · have hnone : (parse ts).toOption.isNone = true := by rwa [hts] at hrefused
      rcases hsame with ⟨p, hp, -⟩ | ⟨m, m', span, position, hd, he⟩
      · rw [hp] at hnone
        cases hnone
      · exact ⟨ts, us, m, m', span, position, hts, hus, hd, he⟩

end AssignLang
