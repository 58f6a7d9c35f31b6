/-
# What one token can do to a reading

`Reading.Next r t r'` lists the ways in which a reading goes on with a token,
one for each pair of a phase and a sort of token that can stand there;
`Reading.step` succeeds in exactly these ways. What is proved about readings is
proved by cases on `Next`, and `step` is not looked into again.

Key definitions: `Reading.Next`.
Key theorems: `Reading.step_eq_ok_iff`.
-/
import AssignLang.Program.Reading
import AssignLang.Proofs.Grammar.Phrase

namespace AssignLang

theorem Literal.ofToken_eq_ok_iff {sort : String} {t : Token} {l : Literal} :
    Literal.ofToken sort t = .ok l ↔ Literal.read? t = some l := by
  unfold ofToken read?
  cases Numeral.read t.text <;> simp

namespace Reading

/-- A reading goes on with a token. -/
inductive Next : Reading → Token → Reading → Prop
  | opens {ds as t} (h : t.kind = .beginWord) : Next ⟨ds, as, .start⟩ t ⟨ds, as, .heading⟩
  | heads {ds as t} (h : t.kind = .newline) : Next ⟨ds, as, .heading⟩ t ⟨ds, as, .line⟩
  /-- A blank line. -/
  | blank {ds as t} (h : t.kind = .newline) : Next ⟨ds, as, .line⟩ t ⟨ds, as, .line⟩
  | ends {ds as t} (h : t.kind = .endWord) : Next ⟨ds, as, .line⟩ t ⟨ds, as, .ended⟩
  | real {ds t} (h : t.kind = .realWord) : Next ⟨ds, #[], .line⟩ t ⟨ds, #[], .names t #[]⟩
  | name {ds as k ns t} (h : t.kind = .identifier) :
      Next ⟨ds, as, .names k ns⟩ t ⟨ds, as, .names k (ns.push t)⟩
  | names {ds as k ns t} (h : t.kind = .newline) (hns : ns ≠ #[]) :
      Next ⟨ds, as, .names k ns⟩ t ⟨ds.push (.real k ns.toList), as, .line⟩
  | integer {ds t} (h : t.kind = .integerWord) :
      Next ⟨ds, #[], .line⟩ t ⟨ds, #[], .integers t #[]⟩
  | whole {ds as k ls t l} (h : t.kind = .literalInt) (hl : Literal.read? t = some l) :
      Next ⟨ds, as, .integers k ls⟩ t ⟨ds, as, .integers k (ls.push l)⟩
  | wholes {ds as k ls t} (h : t.kind = .newline) (hls : ls ≠ #[]) :
      Next ⟨ds, as, .integers k ls⟩ t ⟨ds.push (.integer k ls.toList), as, .line⟩
  | label {ds as t l} (h : t.kind = .literalInt) (hl : Literal.read? t = some l) :
      Next ⟨ds, as, .line⟩ t ⟨ds, as, .label l⟩
  | colon {ds as l t} (h : t.kind = .colon) : Next ⟨ds, as, .label l⟩ t ⟨ds, as, .labelled l⟩
  | labelled {ds as l t} (h : t.kind = .identifier) :
      Next ⟨ds, as, .labelled l⟩ t ⟨ds, as, .target ⟨some l, t⟩⟩
  | target {ds as t} (h : t.kind = .identifier) :
      Next ⟨ds, as, .line⟩ t ⟨ds, as, .target ⟨none, t⟩⟩
  | equals {ds as head t} (h : t.kind = .assign) :
      Next ⟨ds, as, .target head⟩ t ⟨ds, as, .operand head .empty []⟩
  | leaf {ds as head f outer t e} (h : Expr.leaf? t = some e) :
      Next ⟨ds, as, .operand head f outer⟩ t ⟨ds, as, .operator head f outer e⟩
  | minus {ds as head outer t} (h : t.kind = .additive ∧ t.text = "-") :
      Next ⟨ds, as, .operand head .empty outer⟩ t
        ⟨ds, as, .operand head ⟨.minus t, none, none⟩ outer⟩
  | opening {ds as head f outer t} (h : t.kind.isOpening = true) :
      Next ⟨ds, as, .operand head f outer⟩ t ⟨ds, as, .operand head .empty (f :: outer)⟩
  | sign {ds as head f outer e t level op} (h : t.kind.level? = some level)
      (hop : BinaryOp.ofSymbol? t.text = some op) :
      Next ⟨ds, as, .operator head f outer e⟩ t ⟨ds, as, .operand head (f.await level e op t) outer⟩
  | closing {ds as head f next outer e t} (h : t.kind.isClosing = true) :
      Next ⟨ds, as, .operator head f (next :: outer) e⟩ t
        ⟨ds, as, .operator head next outer (f.closeSum e)⟩
  | assigned {ds as head f e t} (h : t.kind = .newline) :
      Next ⟨ds, as, .operator head f [] e⟩ t
        ⟨ds, as.push ⟨head.label, head.target, f.closeSum e⟩, .line⟩

theorem go_eq_ok_iff {r r' : Reading} {phase : Phase} :
    r.go phase = .ok r' ↔ r' = ⟨r.definitions, r.assignments, phase⟩ := by
  simp [go, eq_comm]

theorem ite_go_eq_ok_iff {r r' : Reading} {phase : Phase} {t : Token} {c : Prop} [Decidable c] :
    (if c then r.go phase else r.reject t) = .ok r' ↔
      c ∧ r' = ⟨r.definitions, r.assignments, phase⟩ := by
  split
  · next hc => simp [hc, go_eq_ok_iff]
  · next hc => simp [hc, reject]

theorem bind_literal_eq_ok_iff {sort : String} {t : Token} {f : Literal → Except Cause Reading}
    {r' : Reading} : (Literal.ofToken sort t >>= f) = .ok r' ↔
      ∃ l, Literal.read? t = some l ∧ f l = .ok r' := by
  cases hl : Literal.ofToken sort t with
  | ok l =>
    have hr := Literal.ofToken_eq_ok_iff.mp hl
    simp [hr, bind, Except.bind]
  | error cause =>
    have hr : ∀ l, Literal.read? t ≠ some l := fun l h => by
      rw [Literal.ofToken_eq_ok_iff.mpr h] at hl
      cases hl
    simp [hr, bind, Except.bind]

theorem Next.step_eq {r r' : Reading} {t : Token} (h : Next r t r') : r.step t = .ok r' := by
  cases h with
  | opens h => simp [step, h, go]
  | heads h => simp [step, h, go]
  | blank h => simp [step, stepLine, h]
  | ends h => simp [step, stepLine, h, go]
  | real h => simp [step, stepLine, h, go]
  | name h => simp [step, h, go]
  | names h hns => simp [step, h, hns, define]
  | integer h => simp [step, stepLine, h, go]
  | whole h hl => simp [step, h, hl, go, Literal.integer, bind_literal_eq_ok_iff]
  | wholes h hls => simp [step, h, hls, define]
  | label h hl => simp [step, stepLine, h, hl, go, Literal.integer, bind_literal_eq_ok_iff]
  | colon h => simp [step, h, go]
  | labelled h => simp [step, h, go]
  | target h => simp [step, stepLine, h, go]
  | equals h => simp [step, h, go]
  | @leaf _ _ _ _ _ t e h =>
    cases hk : t.kind <;> simp only [Expr.leaf?, hk, reduceCtorEq, Option.map_eq_some_iff] at h
    · obtain ⟨l, hl, rfl⟩ := h
      simp [step, stepOperand, hk, hl, go, Literal.integer, bind_literal_eq_ok_iff]
    · obtain ⟨l, hl, rfl⟩ := h
      simp [step, stepOperand, hk, hl, go, Literal.real, bind_literal_eq_ok_iff]
    · cases h
      simp [step, stepOperand, hk, go]
  | minus h => simp [step, stepOperand, h, Frame.isEmpty, Frame.empty, go]
  | @opening _ _ _ _ _ t h =>
    cases hk : t.kind <;> simp [hk, Kind.isOpening] at h
    · simp [step, stepOperand, hk, Kind.isOpening, go]
    · simp [step, stepOperand, hk, Kind.isOpening, go]
  | sign h hop => simp [step, stepOperator, h, hop, go]
  | @closing _ _ _ _ _ _ _ t h =>
    cases hk : t.kind <;> simp [hk, Kind.isClosing] at h
    · simp [step, stepOperator, stepClose, hk, Kind.level?, Kind.isClosing, go]
    · simp [step, stepOperator, stepClose, hk, Kind.level?, Kind.isClosing, go]
  | assigned h => simp [step, stepOperator, stepClose, h, Kind.level?, assign]

theorem next_of_stepLine {ds : Array Definition} {as : Array Assignment} {t : Token} {r' : Reading}
    (h : stepLine ⟨ds, as, .line⟩ t = .ok r') : Next ⟨ds, as, .line⟩ t r' := by
  unfold stepLine at h
  split at h
  · next hk =>
    cases h
    exact .blank hk
  · next hk =>
    obtain ⟨has, rfl⟩ := ite_go_eq_ok_iff.mp h
    obtain rfl : as = #[] := Array.isEmpty_iff.mp has
    exact .real hk
  · next hk =>
    obtain ⟨has, rfl⟩ := ite_go_eq_ok_iff.mp h
    obtain rfl : as = #[] := Array.isEmpty_iff.mp has
    exact .integer hk
  · next hk =>
    obtain ⟨l, hl, hgo⟩ := bind_literal_eq_ok_iff.mp h
    rw [go_eq_ok_iff.mp hgo]
    exact .label hk hl
  · next hk =>
    rw [go_eq_ok_iff.mp h]
    exact .target hk
  · next hk =>
    rw [go_eq_ok_iff.mp h]
    exact .ends hk
  · cases h

theorem Frame.eq_empty_of_isEmpty {f : Frame} (h : f.isEmpty = true) : f = .empty := by
  unfold Frame.isEmpty at h
  split at h
  · rfl
  · cases h

theorem next_of_stepOperand {ds : Array Definition} {as : Array Assignment} {head : Head}
    {f : Frame} {outer : List Frame} {t : Token} {r' : Reading}
    (h : stepOperand ⟨ds, as, .operand head f outer⟩ head f outer t = .ok r') :
    Next ⟨ds, as, .operand head f outer⟩ t r' := by
  unfold stepOperand at h
  split at h
  · next hk =>
    obtain ⟨l, hl, hgo⟩ := bind_literal_eq_ok_iff.mp h
    rw [go_eq_ok_iff.mp hgo]
    exact .leaf (by simp [Expr.leaf?, hk, hl])
  · next hk =>
    obtain ⟨l, hl, hgo⟩ := bind_literal_eq_ok_iff.mp h
    rw [go_eq_ok_iff.mp hgo]
    exact .leaf (by simp [Expr.leaf?, hk, hl])
  · next hk =>
    rw [go_eq_ok_iff.mp h]
    exact .leaf (by simp [Expr.leaf?, hk])
  · next hk =>
    obtain ⟨hm, rfl⟩ := ite_go_eq_ok_iff.mp h
    obtain rfl := Frame.eq_empty_of_isEmpty hm.2
    exact .minus ⟨hk, hm.1⟩
  · obtain ⟨ho, rfl⟩ := ite_go_eq_ok_iff.mp h
    exact .opening ho

theorem next_of_stepOperator {ds : Array Definition} {as : Array Assignment} {head : Head}
    {f : Frame} {outer : List Frame} {e : Expr} {t : Token} {r' : Reading}
    (h : stepOperator ⟨ds, as, .operator head f outer e⟩ head f outer e t = .ok r') :
    Next ⟨ds, as, .operator head f outer e⟩ t r' := by
  unfold stepOperator at h
  split at h
  · next level hlevel =>
    split at h
    · next op hop =>
      rw [go_eq_ok_iff.mp h]
      exact .sign hlevel hop
    · cases h
  · unfold stepClose at h
    split at h
    · split at h
      · next hk =>
        cases h
        exact .assigned hk
      · cases h
    · obtain ⟨hc, rfl⟩ := ite_go_eq_ok_iff.mp h
      exact .closing hc

theorem next_of_step {r r' : Reading} {t : Token} (h : r.step t = .ok r') : Next r t r' := by
  obtain ⟨ds, as, phase⟩ := r
  cases phase with
  | start =>
    obtain ⟨hk, rfl⟩ := ite_go_eq_ok_iff.mp h
    exact .opens hk
  | heading =>
    obtain ⟨hk, rfl⟩ := ite_go_eq_ok_iff.mp h
    exact .heads hk
  | line => exact next_of_stepLine h
  | names k ns =>
    simp only [step] at h
    split at h
    · next hk =>
      rw [go_eq_ok_iff.mp h]
      exact .name hk
    · split at h
      · next hk =>
        cases h
        exact .names hk.1 (by simpa using hk.2)
      · cases h
  | integers k ls =>
    simp only [step] at h
    split at h
    · next hk =>
      obtain ⟨l, hl, hgo⟩ := bind_literal_eq_ok_iff.mp h
      rw [go_eq_ok_iff.mp hgo]
      exact .whole hk hl
    · split at h
      · next hk =>
        cases h
        exact .wholes hk.1 (by simpa using hk.2)
      · cases h
  | label l =>
    obtain ⟨hk, rfl⟩ := ite_go_eq_ok_iff.mp h
    exact .colon hk
  | labelled l =>
    obtain ⟨hk, rfl⟩ := ite_go_eq_ok_iff.mp h
    exact .labelled hk
  | target head =>
    obtain ⟨hk, rfl⟩ := ite_go_eq_ok_iff.mp h
    exact .equals hk
  | operand head f outer => exact next_of_stepOperand h
  | operator head f outer e => exact next_of_stepOperator h
  | ended => cases h

/-- **What one token can do to a reading.** -/
theorem step_eq_ok_iff {r r' : Reading} {t : Token} : r.step t = .ok r' ↔ Next r t r' :=
  ⟨next_of_step, Next.step_eq⟩

end Reading
end AssignLang
