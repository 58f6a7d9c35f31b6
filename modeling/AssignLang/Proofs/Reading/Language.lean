/-
# The programs and the beginnings of programs

A list of tokens is read as a program exactly when the tokens before its first
end of the text derive from the grammar and are spelt, and the program is then
the tree of its only derivation.

Every reading can be completed: whatever the tokens read so far have left open
can be closed (`Reading.finishes`). So the tokens that are read without an
error are the beginning of a program, while a token that the reading refuses
makes a beginning of no program: the reading fails at the earliest token that it
could fail at.

Key definitions: `withEnd`, `Viable`, `LongestViable`, `PointsAt`.
Key theorems: `parse_derives`, `Reading.finishes`,
`parse_error_earliest`.
-/
import AssignLang.Proofs.Reading.Completeness
import AssignLang.Proofs.Reading.Soundness

namespace AssignLang

/-! ### The language -/

/-- Programs are read off the derivations of the tokens before the end. -/
theorem parse_eq_ok_iff_derivation {ts : List Token} {p : Program} :
    parse ts = .ok p ↔ ∃ d : Derivation, d.tokens = beforeEnd ts ∧ d.program? = some p := by
  rw [parse_eq_ok_iff]
  constructor
  · rintro ⟨r, hsteps, hended, rfl⟩
    exact Reading.exists_derivation_of_steps hsteps hended
  · rintro ⟨d, hd, hp⟩
    obtain ⟨r, hsteps, hended, rfl⟩ := Reading.exists_steps_of_derivation hp
    exact ⟨r, hd ▸ hsteps, hended, rfl⟩

/-- The tokens of a program are spelt. -/
theorem spelt_of_parse {ts : List Token} {p : Program} (h : parse ts = .ok p) :
    ∀ t ∈ beforeEnd ts, t.Spelt := by
  obtain ⟨d, hd, hp⟩ := parse_eq_ok_iff_derivation.mp h
  exact hd ▸ d.isSome_program?_iff.mp (by rw [hp]; rfl)

/-- **The reading accepts its grammar and gives the tree of the derivation.** A
program is read exactly when the tokens before the end derive from the grammar
and are spelt; the programs that are read are those that a derivation stands
for; and no tokens have two derivations. -/
theorem parse_derives (ts : List Token) :
    ((∃ p, parse ts = .ok p) ↔
      (∃ d : Derivation, d.tokens = beforeEnd ts) ∧ ∀ t ∈ beforeEnd ts, t.Spelt) ∧
    (∀ p, parse ts = .ok p ↔ ∃ d : Derivation, d.tokens = beforeEnd ts ∧ d.program? = some p) ∧
    ∀ d e : Derivation, d.tokens = beforeEnd ts ∧ e.tokens = beforeEnd ts → d = e := by
  refine ⟨⟨?_, ?_⟩, fun p => parse_eq_ok_iff_derivation, ?_⟩
  · rintro ⟨p, hp⟩
    obtain ⟨d, hd, hdp⟩ := parse_eq_ok_iff_derivation.mp hp
    have hspelt := d.isSome_program?_iff.mp (by simp [hdp])
    exact ⟨⟨d, hd⟩, hd ▸ hspelt⟩
  · rintro ⟨⟨d, hd⟩, hspelt⟩
    have hsome := d.isSome_program?_iff.mpr (hd ▸ hspelt)
    obtain ⟨p, hp⟩ := Option.isSome_iff_exists.mp hsome
    exact ⟨p, parse_eq_ok_iff_derivation.mpr ⟨d, hd, hp⟩⟩
  · rintro d e ⟨hd, he⟩
    exact Derivation.tokens_inj (hd.trans he.symm)

/-! ### Every reading can be completed

From every place the statement at hand can be finished with a few tokens, as
many of them closing brackets as brackets are open, and then `end` can come. -/

/-- A token that completes a program. -/
def Token.sample (kind : Kind) (text : String) : Token := ⟨kind, text, .empty 0, .start, false⟩

namespace Reading

/-- Some tokens lead to `end`. -/
def Finishes (r : Reading) : Prop := ∃ w r', r.steps w = .ok r' ∧ r'.phase = .ended

theorem Next.finishes {r r' : Reading} {t : Token} (h : Next r t r') (h' : r'.Finishes) :
    r.Finishes := by
  obtain ⟨w, r'', hw, hended⟩ := h'
  exact ⟨t :: w, r'', by rw [steps_cons_of_ok h.step_eq, hw], hended⟩

section
variable {ds : Array Definition} {as : Array Assignment}

theorem finishes_line : Finishes ⟨ds, as, .line⟩ := by
  have hend : Next ⟨ds, as, .line⟩ (.sample .endWord "end") ⟨ds, as, .ended⟩ := .ends rfl
  exact hend.finishes ⟨[], _, rfl, rfl⟩

/-- The open brackets are closed from the inside to the outside. -/
theorem finishes_operator {head : Head} : ∀ {outer : List Frame} {f : Frame} {e : Expr},
    Finishes ⟨ds, as, .operator head f outer e⟩
  | [], f, e => by
    have hnext : Next ⟨ds, as, .operator head f [] e⟩ (.sample .newline "\n") _ := .assigned rfl
    exact hnext.finishes finishes_line
  | g :: outer, f, e => by
    have hnext : Next ⟨ds, as, .operator head f (g :: outer) e⟩ (.sample .parenRight ")") _ :=
      .closing rfl
    exact hnext.finishes finishes_operator

theorem finishes_operand {head : Head} {f : Frame} {outer : List Frame} :
    Finishes ⟨ds, as, .operand head f outer⟩ := by
  have hnext : Next ⟨ds, as, .operand head f outer⟩ (.sample .identifier "x") _ := .leaf rfl
  exact hnext.finishes finishes_operator

theorem finishes_target {head : Head} : Finishes ⟨ds, as, .target head⟩ := by
  have hnext : Next ⟨ds, as, .target head⟩ (.sample .assign "=") _ := .equals rfl
  exact hnext.finishes finishes_operand

theorem finishes_labelled {l : Literal} : Finishes ⟨ds, as, .labelled l⟩ := by
  have hnext : Next ⟨ds, as, .labelled l⟩ (.sample .identifier "x") _ := .labelled rfl
  exact hnext.finishes finishes_target

theorem finishes_names {k : Token} {ns : Array Token} : Finishes ⟨ds, as, .names k ns⟩ := by
  have hname : Next ⟨ds, as, .names k ns⟩ (.sample .identifier "x") _ := .name rfl
  have hbreak : Next ⟨ds, as, .names k (ns.push (.sample .identifier "x"))⟩
      (.sample .newline "\n") _ := .names rfl (by simp)
  exact hname.finishes (hbreak.finishes finishes_line)

theorem finishes_integers {k : Token} {ls : Array Literal} :
    Finishes ⟨ds, as, .integers k ls⟩ := by
  have hread : (Literal.read? (.sample .literalInt "1")).isSome := by decide
  obtain ⟨l, hl⟩ := Option.isSome_iff_exists.mp hread
  have hwhole : Next ⟨ds, as, .integers k ls⟩ (.sample .literalInt "1") _ := .whole rfl hl
  have hbreak : Next ⟨ds, as, .integers k (ls.push l)⟩ (.sample .newline "\n") _ :=
    .wholes rfl (by simp)
  exact hwhole.finishes (hbreak.finishes finishes_line)

end

theorem finishes (r : Reading) : r.Finishes := by
  obtain ⟨ds, as, phase⟩ := r
  have hheading : Finishes ⟨ds, as, .heading⟩ := by
    have hnext : Next ⟨ds, as, .heading⟩ (.sample .newline "\n") _ := .heads rfl
    exact hnext.finishes finishes_line
  cases phase with
  | start =>
    have hnext : Next ⟨ds, as, .start⟩ (.sample .beginWord "begin") _ := .opens rfl
    exact hnext.finishes hheading
  | heading => exact hheading
  | line => exact finishes_line
  | names k ns => exact finishes_names
  | integers k ls => exact finishes_integers
  | label l =>
    have hnext : Next ⟨ds, as, .label l⟩ (.sample .colon ":") _ := .colon rfl
    exact hnext.finishes finishes_labelled
  | labelled l => exact finishes_labelled
  | target head => exact finishes_target
  | operand head f outer => exact finishes_operand
  | operator head f outer e => exact finishes_operator
  | ended => exact ⟨[], _, rfl, rfl⟩

theorem Next.kind_ne_eof {r r' : Reading} {t : Token} (h : Next r t r') : t.kind ≠ .eof := by
  intro ht
  cases h <;> simp_all [Expr.leaf?, Kind.isOpening, Kind.isClosing, Kind.level?]

/-- No reading goes past the end of the text. -/
theorem kind_ne_eof_of_steps {r' : Reading} : ∀ {w : List Token} {r : Reading},
    r.steps w = .ok r' → ∀ x ∈ w, x.kind ≠ .eof
  | [], _, _ => by simp
  | t :: w, r, h => by
    cases hs : r.step t with
    | ok r'' =>
      rw [steps_cons_of_ok hs] at h
      exact List.forall_mem_cons.mpr ⟨(next_of_step hs).kind_ne_eof, kind_ne_eof_of_steps h⟩
    | error cause =>
      rw [steps_cons_of_error hs] at h
      cases h

end Reading

/-! ### Beginnings of programs -/

/-- The tokens begin a list that is read as a program. -/
def Viable (w : List Token) : Prop := ∃ ts p, parse ts = .ok p ∧ w <+: ts

theorem beforeEnd_append {w : List Token} (h : ∀ x ∈ w, x.kind ≠ .eof) (u : List Token) :
    beforeEnd (w ++ u) = w ++ beforeEnd u := by
  rw [beforeEnd, List.takeWhile_append_of_pos (by simpa using h), beforeEnd]

theorem beforeEnd_eq_self {w : List Token} (h : ∀ x ∈ w, x.kind ≠ .eof) : beforeEnd w = w := by
  simpa [beforeEnd] using beforeEnd_append h []

theorem Viable.of_isPrefix {v w : List Token} (hw : Viable w) (h : v <+: w) : Viable v := by
  obtain ⟨ts, p, hp, hts⟩ := hw
  exact ⟨ts, p, hp, h.trans hts⟩

/-- What is read without an error begins a program. -/
theorem viable_of_steps {w : List Token} {r : Reading} (h : Reading.start.steps w = .ok r) :
    Viable w := by
  obtain ⟨u, r', hu, hended⟩ := r.finishes
  have hsteps : Reading.start.steps (w ++ u) = .ok r' := by rw [Reading.steps_append_of_ok h, hu]
  have hbefore := beforeEnd_eq_self (Reading.kind_ne_eof_of_steps hsteps)
  refine ⟨w ++ u, r'.program, ?_, w.prefix_append u⟩
  rw [parse_eq_ok_iff]
  exact ⟨r', by rw [hbefore, hsteps], hended, rfl⟩

/-- A token that the reading refuses begins no program. -/
theorem not_viable_of_refuses {w : List Token} {r : Reading} (h : Reading.start.steps w = .ok r)
    {t : Token} {cause : Cause} (ht : r.Refuses t cause) : ¬ Viable (w ++ [t]) := by
  rintro ⟨ts, p, hp, u, rfl⟩
  have hw := Reading.kind_ne_eof_of_steps h
  obtain ⟨r', hsteps, hended, -⟩ := parse_eq_ok_iff.mp hp
  rw [List.append_assoc, List.singleton_append] at hsteps
  by_cases hk : t.kind = .eof
  · -- The end comes here, so the reading is the one that ended.
    have hbefore : beforeEnd (t :: u) = [] := by simp [beforeEnd, hk]
    rw [beforeEnd_append hw, hbefore, List.append_nil, h] at hsteps
    cases hsteps
    have hok := Reading.finish_eq_ok_iff (t := t).mpr ⟨hended, rfl⟩
    rw [Reading.Refuses, if_pos hk, hok] at ht
    cases ht
  · have hbefore : beforeEnd (t :: u) = t :: beforeEnd u := by simp [beforeEnd, hk]
    rw [Reading.Refuses, if_neg hk] at ht
    rw [beforeEnd_append hw, hbefore, Reading.steps_append_of_ok h,
      Reading.steps_cons_of_error ht] at hsteps
    cases hsteps

/-! ### The earliest error -/

/-- The tokens with the end of the text after them, if it is not the last of
them. -/
def withEnd (ts : List Token) : List Token :=
  if ts.getLast?.any (fun t => t.kind == .eof) then ts else ts ++ [Token.endAfter ts]

/-- The first `k` tokens are the longest beginning of a program. -/
def LongestViable (us : List Token) (k : Nat) : Prop :=
  Viable (us.take k) ∧ ∀ m, Viable (us.take m) → m ≤ k

/-- A diagnostic about the token `t` after the tokens `w` points at this token:
at `t` if it can be seen, else at the last token before it that is no line feed,
else at `t`. -/
inductive PointsAt (w : List Token) (t : Token) : Token → Prop
  | itself (h : t.kind ≠ .newline ∧ t.kind ≠ .eof) : PointsAt w t t
  | before {u v : List Token} {s : Token} (h : t.kind = .newline ∨ t.kind = .eof)
      (hw : w = u ++ s :: v) (hs : s.kind ≠ .newline) (hv : ∀ x ∈ v, x.kind = .newline) :
      PointsAt w t s
  | alone (h : t.kind = .newline ∨ t.kind = .eof) (hw : ∀ x ∈ w, x.kind = .newline) :
      PointsAt w t t

theorem pointsAt_pointAt {w : List Token} (hw : ∀ x ∈ w, x.kind ≠ .eof) (t : Token) :
    PointsAt w t (Reading.pointAt w.reverse t) := by
  unfold Reading.pointAt
  by_cases ht : t.isVisible = true
  · rw [if_pos ht]
    exact .itself (by simpa [Token.isVisible] using ht)
  · rw [if_neg ht]
    have hkind : t.kind = .newline ∨ t.kind = .eof := by
      rw [Token.isVisible] at ht
      grind
    cases hfind : w.reverse.find? Token.isVisible with
    | none =>
      refine .alone hkind fun x hx => ?_
      have hx' := List.find?_eq_none.mp hfind x (List.mem_reverse.mpr hx)
      have hne := hw x hx
      simp only [Token.isVisible] at hx'
      grind
    | some s =>
      obtain ⟨hs, v, u, hsplit, hv⟩ := List.find?_eq_some_iff_append.mp hfind
      have hsplit' : w = u.reverse ++ s :: v.reverse := by
        rw [← List.reverse_reverse w, hsplit]
        simp
      refine .before hkind hsplit' ?_ fun x hx => ?_
      · simp only [Token.isVisible] at hs
        grind
      · have hx' := hv x (List.mem_reverse.mp hx)
        have hne := hw x (by simp [hsplit', List.mem_reverse.mp hx])
        simp only [Token.isVisible] at hx'
        grind

/-- A beginning of the tokens and an end that holds no earlier end is a
beginning of the tokens with their end. -/
theorem isPrefix_withEnd {w ts : List Token} {t : Token} (hw : ∀ x ∈ w, x.kind ≠ .eof)
    (h : w ++ [t] <+: ts ++ [Token.endAfter ts]) : w ++ [t] <+: withEnd ts := by
  unfold withEnd
  split
  · next hend =>
    rcases List.prefix_concat_iff.mp h with heq | hpre
    · -- All tokens come before the end, and the last of them is one.
      obtain ⟨rfl, -⟩ := List.append_inj' heq rfl
      cases hlast : w.getLast? with
      | none => simp [hlast] at hend
      | some x => exact absurd (by simpa [hlast] using hend) (hw x (List.mem_of_getLast? hlast))
    · exact hpre
  · exact h

/-- **A diagnostic is about the earliest token that no program has there.** Up to
the token, which comes no later than the first end of the text, the tokens are
the longest beginning of a program. -/
theorem parse_error_earliest {ts : List Token} {d : Diagnostic} (h : parse ts = .error d) :
    ∃ k t s, (withEnd ts)[k]? = some t ∧ LongestViable (withEnd ts) k ∧
      (∀ x ∈ (withEnd ts).take k, x.kind ≠ .eof) ∧ PointsAt ((withEnd ts).take k) t s ∧
      d.span = s.span ∧ d.position = s.start := by
  have hend : (Token.endAfter ts).kind = .eof := by
    unfold Token.endAfter
    split <;> rfl
  obtain ⟨w, t, r, cause, hpre, hw, hsteps, hrefuses, rfl⟩ := Reading.run_eq_error hend ts h
  obtain ⟨u, hu⟩ := isPrefix_withEnd hw hpre
  rw [← hu]
  have htake : (w ++ [t] ++ u).take w.length = w := by simp
  refine ⟨w.length, t, Reading.pointAt w.reverse t, by simp, ⟨?_, ?_⟩, ?_, ?_, ?_, ?_⟩
  · rw [htake]
    exact viable_of_steps hsteps
  · intro m hm
    by_cases hlt : w.length < m
    · have hlen : (w ++ [t]).length ≤ m := by
        rw [List.length_append, List.length_singleton]
        omega
      refine absurd (hm.of_isPrefix ?_) (not_viable_of_refuses hsteps hrefuses)
      rw [List.prefix_take_iff]
      exact ⟨List.prefix_append _ u, hlen⟩
    · omega
  · rw [htake]
    exact hw
  · rw [htake]
    exact pointsAt_pointAt hw t
  · rw [List.append_nil]
    rfl
  · rw [List.append_nil]
    rfl

/-- The line feed after `x =` cannot be seen. -/
def missingOperand : List Token :=
  [.sample .beginWord "begin", .sample .newline "\n", .sample .identifier "x",
   .sample .assign "=", .sample .newline "\n", .sample .endWord "end"]

theorem missingOperand_error_earliest :
    ∃ d, parse missingOperand = .error d ∧ ∃ k t s, (withEnd missingOperand)[k]? = some t ∧
      LongestViable (withEnd missingOperand) k ∧
      (∀ x ∈ (withEnd missingOperand).take k, x.kind ≠ .eof) ∧
      PointsAt ((withEnd missingOperand).take k) t s ∧ d.span = s.span ∧ d.position = s.start :=
  ⟨_, rfl, parse_error_earliest rfl⟩

end AssignLang
