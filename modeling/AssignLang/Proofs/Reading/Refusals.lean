/-
# Why a token is refused

A reading refuses a token for one of three reasons: no program has a token of this
kind there, the token is a sign whose text is no operator, or it is a literal whose
text is no numeral. A token that is spelt is refused for the first reason only. The
diagnostic of a text that is no program has the cause of the refusal that ended the
reading.

Key definitions: `Refusal`.
Key theorems: `Reading.Refuses.refusal`, `exists_refusal_of_parse`,
`Refusal.exists_violation`.
-/
import AssignLang.Proofs.Reading.Language

namespace AssignLang

/-- The reasons for which a token is refused, with the causes they are reported by. -/
inductive Refusal (t : Token) : Cause → Prop
  /-- The token cannot stand there, whatever its text. -/
  | misplaced (v : Violation) (hv : v ≠ .unknownOperator) : Refusal t (.unexpectedToken v.message)
  | sign (hk : t.kind.level?.isSome) (ht : BinaryOp.ofSymbol? t.text = none) :
      Refusal t (.unexpectedToken Violation.unknownOperator.message)
  | literal (sort : String) {e : NumeralError} (hk : t.kind = .literalInt ∨ t.kind = .literalReal)
      (ht : Numeral.read t.text = .error e) :
      Refusal t (.malformedLiteral ("Failed to parse " ++ sort ++ " literal: " ++ e.message))

/-- The reason that a phase gives is never the text of a sign. -/
theorem Phase.violation_ne_unknownOperator (p : Phase) (t : Token) :
    p.violation t ≠ .unknownOperator := by
  have hline : ∀ k, Violation.inLine k ≠ .unknownOperator := by
    intro k
    cases k <;> decide
  cases p with
  | heading =>
    unfold violation
    cases t.kind <;> simp [hline]
  | names keyword ns => by_cases hns : ns.isEmpty <;> simp [violation, hns]
  | integers keyword ls => by_cases hls : ls.isEmpty <;> simp [violation, hls]
  | operator head frame outer e =>
    cases outer with
    | nil => exact hline t.kind
    | cons g outer => simp [violation]
  | _ => simp [violation]

namespace Reading

theorem refusal_of_reject {α : Type} {r : Reading} {t : Token} {cause : Cause}
    (h : (r.reject t : Except Cause α) = .error cause) : Refusal t cause := by
  cases h
  exact .misplaced _ (r.phase.violation_ne_unknownOperator t)

theorem refusal_of_ite {r : Reading} {t : Token} {cause : Cause} {phase : Phase} {c : Prop}
    [Decidable c] (h : (if c then r.go phase else r.reject t) = .error cause) :
    Refusal t cause := by
  split at h
  · cases h
  · exact refusal_of_reject h

theorem refusal_of_literal {sort : String} {t : Token} {cause : Cause}
    {f : Literal → Except Cause Reading}
    (hk : t.kind = .literalInt ∨ t.kind = .literalReal) (hf : ∀ l, ∃ r', f l = .ok r')
    (h : (Literal.ofToken sort t >>= f) = .error cause) : Refusal t cause := by
  unfold Literal.ofToken at h
  split at h
  · next x hx =>
    obtain ⟨r', hr'⟩ := hf ⟨t, x⟩
    have hok : f ⟨t, x⟩ = .error cause := h
    rw [hr'] at hok
    cases hok
  · next e he =>
    cases h
    exact .literal sort hk he

theorem refusal_of_stepLine {r : Reading} {t : Token} {cause : Cause}
    (h : r.stepLine t = .error cause) : Refusal t cause := by
  unfold stepLine at h
  split at h
  · cases h
  · exact refusal_of_ite h
  · exact refusal_of_ite h
  · next hk => exact refusal_of_literal (.inl hk) (fun l => ⟨_, rfl⟩) h
  · cases h
  · cases h
  · exact refusal_of_reject h

theorem refusal_of_stepOperand {r : Reading} {head : Head} {f : Frame} {outer : List Frame}
    {t : Token} {cause : Cause} (h : r.stepOperand head f outer t = .error cause) :
    Refusal t cause := by
  unfold stepOperand at h
  split at h
  · next hk => exact refusal_of_literal (.inl hk) (fun l => ⟨_, rfl⟩) h
  · next hk => exact refusal_of_literal (.inr hk) (fun l => ⟨_, rfl⟩) h
  · cases h
  · exact refusal_of_ite h
  · exact refusal_of_ite h

theorem refusal_of_stepOperator {r : Reading} {head : Head} {f : Frame} {outer : List Frame}
    {e : Expr} {t : Token} {cause : Cause} (h : r.stepOperator head f outer e t = .error cause) :
    Refusal t cause := by
  unfold stepOperator at h
  split at h
  · next level hlevel =>
    split at h
    · cases h
    · next hop =>
      cases h
      exact .sign (by rw [hlevel]; rfl) hop
  · unfold stepClose at h
    split at h
    · split at h
      · cases h
      · exact refusal_of_reject h
    · exact refusal_of_ite h

/-- **The reasons for which a step fails.** -/
theorem refusal_of_step {r : Reading} {t : Token} {cause : Cause} (h : r.step t = .error cause) :
    Refusal t cause := by
  unfold step at h
  split at h
  · exact refusal_of_ite h
  · exact refusal_of_ite h
  · exact refusal_of_stepLine h
  · split at h
    · cases h
    · split at h
      · cases h
      · exact refusal_of_reject h
  · split at h
    · next hk => exact refusal_of_literal (.inl hk) (fun l => ⟨_, rfl⟩) h
    · split at h
      · cases h
      · exact refusal_of_reject h
  · exact refusal_of_ite h
  · exact refusal_of_ite h
  · exact refusal_of_ite h
  · exact refusal_of_stepOperand h
  · exact refusal_of_stepOperator h
  · exact refusal_of_reject h

theorem Refuses.refusal {r : Reading} {t : Token} {cause : Cause} (h : r.Refuses t cause) :
    Refusal t cause := by
  unfold Refuses at h
  split at h
  · unfold finish at h
    split at h
    · cases h
    · exact refusal_of_reject h
  · exact refusal_of_step h

end Reading

/-- **The cause of a diagnostic about tokens that are no program** is that of the
refusal of one of them, or of the end. -/
theorem exists_refusal_of_parse {ts : List Token} {d : Diagnostic} (h : parse ts = .error d) :
    ∃ t, (t ∈ ts ∨ t.kind = .eof) ∧ Refusal t d.cause := by
  have hend : (Token.endAfter ts).kind = .eof := by
    unfold Token.endAfter
    split <;> rfl
  obtain ⟨w, t, r, cause, hpre, -, -, hrefuses, rfl⟩ := Reading.run_eq_error hend ts h
  refine ⟨t, ?_, hrefuses.refusal⟩
  have hmem : t ∈ ts ++ [Token.endAfter ts] := hpre.subset (by simp)
  rcases List.mem_append.mp hmem with ht | ht
  · exact .inl ht
  · exact .inr (List.mem_singleton.mp ht ▸ hend)

/-- A token that is spelt is refused for the place where it stands. -/
theorem Refusal.exists_violation {t : Token} {cause : Cause} (h : Refusal t cause)
    (ht : t.Spelt) : ∃ v, v ≠ Violation.unknownOperator ∧ cause = .unexpectedToken v.message := by
  cases h with
  | misplaced v hv => exact ⟨v, hv, rfl⟩
  | sign hk hop =>
    obtain ⟨level, hlevel⟩ := Option.isSome_iff_exists.mp hk
    obtain ⟨op, hop'⟩ := (Token.spelt_sign_iff (Kind.level?_eq_some_iff.mp hlevel)).mp ht
    rw [hop] at hop'
    cases hop'
  | literal sort hk hread =>
    obtain ⟨x, hx⟩ := ht.1 hk
    rw [hread] at hx
    cases hx

/-- Only the text of a sign is reported as an unknown operator. -/
theorem Violation.message_ne_unknownOperator {v : Violation} (hv : v ≠ .unknownOperator) :
    v.message ≠ Violation.unknownOperator.message := by
  cases v with
  | unknownOperator => exact absurd rfl hv
  | operandMissing found =>
    intro heq
    have hquote : "Expected expression, got ".toList.head? = some 'E' := by decide
    have hexpected : (operandMissing found).message.toList.head? = some 'E' := by
      show ("Expected expression, got " ++ found.display).toList.head? = some 'E'
      rw [String.toList_append, List.head?_append, hquote]
      rfl
    have hunknown : unknownOperator.message.toList.head? = some 'U' := by decide
    rw [heq, hunknown] at hexpected
    cases hexpected
  | _ => decide

end AssignLang
