/-
# Where a reading ends

A reading stops at the first end of the text, and what follows it is not looked at
(`parse_take`). Of the end itself nothing but its kind is looked at once a visible
token was read: a diagnostic about it points at the last visible token before it. The
first token of a program can be seen, so the end may stand anywhere, have any text,
or be left out, unless nothing comes before it (`parse_concat_end`); only then is it
the place of the diagnostic (`parse_end_cons`).

Key theorems: `Reading.run_append_end`, `Reading.run_eq_of_visible`, `parse_take`,
`parse_concat_end`, `parse_end_cons`, `parse_up_to_end`.
-/
import AssignLang.Proofs.Reading.Unplaced

namespace AssignLang

variable {z z' : Token}

/-- What is said of an end is the same for every end. -/
theorem Phase.message_violation_end (p : Phase) (hz : z.kind = .eof) (hz' : z'.kind = .eof) :
    (p.violation z).message = (p.violation z').message := by
  have hdisplay : z.display = z'.display := by rw [Token.display, Token.display, hz, hz']
  cases p with
  | heading => rw [violation, violation, hz, hz']
  | operand head g outer =>
    show "Expected expression, got " ++ z.display = "Expected expression, got " ++ z'.display
    rw [hdisplay]
  | operator head g outer e =>
    cases outer with
    | nil =>
      show (Violation.inLine z.kind).message = (Violation.inLine z'.kind).message
      rw [hz, hz']
    | cons next outer => rfl
  | _ => rfl

namespace Reading

theorem finish_end (r : Reading) (hz : z.kind = .eof) (hz' : z'.kind = .eof) :
    r.finish z = r.finish z' := by
  have hreject : (r.reject z : Except Cause Program) = r.reject z' := by
    show Except.error _ = Except.error _
    rw [r.phase.message_violation_end hz hz']
  unfold finish
  split
  · rfl
  · exact hreject

/-- **What follows an end is not looked at.** -/
theorem run_append_end (last last' : Token) (hz : z.kind = .eof) (u : List Token) :
    ∀ (w passed : List Token) (r : Reading),
      run last passed r (w ++ z :: u) = run last' passed r (w ++ [z])
  | [], passed, r => by
    rw [List.nil_append, List.nil_append, run, run, if_pos hz, if_pos hz]
  | t :: w, passed, r => by
    rw [List.cons_append, List.cons_append, run, run]
    by_cases ht : t.kind = .eof
    · rw [if_pos ht, if_pos ht]
    · rw [if_neg ht, if_neg ht]
      cases r.step t with
      | ok r' => exact run_append_end last last' hz u w (t :: passed) r'
      | error cause => rfl

/-! ### Behind a visible token -/

/-- A diagnostic about the end points at the last visible token. -/
theorem fault_end {passed : List Token} (hpassed : ∃ t ∈ passed, t.isVisible = true)
    (hz : z.kind = .eof) (hz' : z'.kind = .eof) (cause : Cause) :
    fault passed z cause = fault passed z' cause := by
  have hpoint : pointAt passed z = pointAt passed z' := by
    have hnot : ∀ x : Token, x.kind = .eof → ¬ x.isVisible = true := by
      intro x hx
      simp [Token.isVisible, hx]
    obtain ⟨s, hs⟩ := Option.isSome_iff_exists.mp (List.find?_isSome.mpr hpassed)
    rw [pointAt, pointAt, if_neg (hnot z hz), if_neg (hnot z' hz'), hs]
    rfl
  rw [fault, fault, hpoint]

/-- **Every end is as good as any other** once a visible token was read. -/
theorem run_eq_of_visible (hz : z.kind = .eof) (hz' : z'.kind = .eof) :
    ∀ {ts passed : List Token} {r : Reading}, (∃ t ∈ passed, t.isVisible = true) →
      run z passed r ts = run z' passed r ts
  | [], passed, r, hpassed => by
    rw [run, run, r.finish_end hz hz', funext (fault_end hpassed hz hz')]
  | t :: ts, passed, r, hpassed => by
    unfold run
    by_cases ht : t.kind = .eof
    · rw [if_pos ht, if_pos ht]
    · rw [if_neg ht, if_neg ht]
      cases r.step t with
      | ok r' =>
        obtain ⟨s, hs, hvisible⟩ := hpassed
        exact run_eq_of_visible hz hz' ⟨s, List.mem_cons_of_mem t hs, hvisible⟩
      | error cause => rfl

/-- The first token that is read is `begin`, which can be seen. -/
theorem run_start_eq (hz : z.kind = .eof) (hz' : z'.kind = .eof) :
    ∀ {ts : List Token}, ts ≠ [] → run z [] start ts = run z' [] start ts
  | [], hts => absurd rfl hts
  | t :: ts, _ => by
    unfold run
    by_cases ht : t.kind = .eof
    · rw [if_pos ht, if_pos ht]
    · rw [if_neg ht, if_neg ht]
      cases hs : start.step t with
      | ok r =>
        have hbegin : t.kind = .beginWord := (ite_go_eq_ok_iff.mp hs).1
        exact run_eq_of_visible hz hz' ⟨t, List.mem_cons_self, by simp [Token.isVisible, hbegin]⟩
      | error cause => rfl

end Reading

/-! ### Whole lists -/

/-- A list is read up to any end in it. -/
theorem parse_take {ts : List Token} {e : Nat} (he : ts[e]? = some z) (hz : z.kind = .eof) :
    parse (ts.take (e + 1)) = parse ts := by
  obtain ⟨hlt, hget⟩ := List.getElem?_eq_some_iff.mp he
  have hsplit : ts = ts.take e ++ z :: ts.drop (e + 1) := by
    rw [← hget, ← List.drop_eq_getElem_cons hlt, List.take_append_drop]
  have htake : ts.take (e + 1) = ts.take e ++ [z] := by
    rw [List.take_add_one, he, Option.toList_some]
  calc parse (ts.take (e + 1))
      = Reading.start.run (Token.endAfter (ts.take (e + 1))) [] (ts.take e ++ [z]) := by
        rw [parse, htake]
    _ = Reading.start.run (Token.endAfter ts) [] (ts.take e ++ z :: ts.drop (e + 1)) :=
        (Reading.run_append_end _ _ hz _ _ _ _).symm
    _ = parse ts := by rw [← hsplit, parse]

/-- An end may be added to tokens, whatever it is. -/
theorem parse_concat_end {ts : List Token} (hts : ts ≠ []) (hz : z.kind = .eof) :
    parse (ts ++ [z]) = parse ts := by
  have hend : ∃ t ∈ ts ++ [z], t.kind = .eof := ⟨z, by simp, hz⟩
  calc parse (ts ++ [z])
      = Reading.start.run z [] (ts ++ [z]) := Reading.run_eq_of_eof _ _ hend
    _ = Reading.start.run z [] ts := Reading.run_concat hz
    _ = parse ts := Reading.run_start_eq hz (Token.kind_endAfter ts) hts

/-- An end that nothing comes before is where the diagnostic stands. -/
theorem parse_end_cons (hz : z.kind = .eof) (ts : List Token) :
    parse (z :: ts) = .error (z.fault (.unexpectedToken Violation.beginMissing.message)) := by
  have hpoint : Reading.pointAt [] z = z := by simp [Reading.pointAt]
  rw [parse, Reading.run, if_pos hz]
  show Except.error (Reading.fault [] z _) = _
  rw [Reading.fault, hpoint]
  rfl

/-- **Tokens are read up to the first end, wherever it stands.** A list with an end at
number `e` is read as its first `e + 1` tokens are; a list that is not empty is read
as it is with any end after it; and where nothing comes before the end, the diagnostic
stands at the end, which is the start of the text if there are no tokens at all. -/
theorem parse_up_to_end :
    (∀ (ts : List Token) (e : Nat) (z : Token), ts[e]? = some z → z.kind = .eof →
      parse ts = parse (ts.take (e + 1))) ∧
    (∀ (ts : List Token) (z : Token), ts ≠ [] → z.kind = .eof → parse ts = parse (ts ++ [z])) ∧
    (∀ (ts : List Token) (z : Token), z.kind = .eof → parse (z :: ts) =
      .error ⟨.unexpectedToken "The program must start with 'begin'", z.span, z.start⟩) ∧
    parse [] = .error ⟨.unexpectedToken "The program must start with 'begin'", ⟨0, 0⟩, ⟨1, 1⟩⟩ :=
  ⟨fun _ _ _ he hz => (parse_take he hz).symm, fun _ _ hts hz => (parse_concat_end hts hz).symm,
    fun ts _ hz => parse_end_cons hz ts, rfl⟩

/-- A program with an end between it and more tokens, and a target that the end
follows, or another end with a text and a place. -/
theorem parse_up_to_end_early :
    let z : Token := ⟨.eof, "?", ⟨7, 9⟩, ⟨3, 4⟩, true⟩
    let target : List Token := [.sample .beginWord "begin", .sample .newline "\n",
      .sample .identifier "x"]
    let program : List Token := [.sample .beginWord "begin", .sample .newline "\n",
      .sample .endWord "end"]
    parse (program ++ z :: target) = parse (program ++ [z]) ∧ parse target = parse (target ++ [z]) ∧
      parse (z :: program) =
        .error ⟨.unexpectedToken "The program must start with 'begin'", ⟨7, 9⟩, ⟨3, 4⟩⟩ := by
  intro z target program
  obtain ⟨htake, hadded, hfirst, -⟩ := parse_up_to_end
  exact ⟨htake (program ++ z :: target) 3 z rfl rfl, hadded target z (by simp [target]) rfl,
    hfirst program z rfl⟩

end AssignLang
