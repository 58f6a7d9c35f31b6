/-
# Descending into a program

The descent passes the lines of a program as the reading does. Where a statement has
ended the reading waits for the line feed (`Ended`), and the descent asks for it only
when the next statement begins; what follows on the same line is refused by both, and
for the same reason. So the descent into a whole list of tokens always ends, with the
program or the diagnostic of `parse`, and its account says how: up to the first end of
the text it goes on by one token a call, and in every round it passes one
(`descent_passes_tokens`).

Key definitions: `Ended`, `AtStatement`, `Headed`, `Account`.
Key theorems: `meets_definition`, `meets_assignment`, `meets_definitions`,
`meets_assignments`, `meets_body`, `descent_passes_tokens`.
-/
import AssignLang.Proofs.Descent.Limits
import AssignLang.Proofs.Descent.Phrases

namespace AssignLang
namespace Descent

variable {ts : List Token} {e : Nat} {c : Cursor} {r : Reading} {t : Token} {ds : Array Definition}
  {as : Array Assignment}

/-- A statement ended before the token `t`: a line feed can come next, and a token on
the same line is refused. -/
structure Ended (ds : Array Definition) (as : Array Assignment) (t : Token) (r : Reading) : Prop where
  breaks : ∀ u, u.kind = .newline → Reading.Next r u ⟨ds, as, .line⟩
  refuses : r.phase ≠ .line → t.kind ≠ .newline →
    r.Refuses t (.unexpectedToken (Violation.inLine t.kind).message)
  phase_ne_start : r.phase ≠ .start
  eq_of_line : r.phase = .line → r = ⟨ds, as, .line⟩

/-- The token is no line feed, and no definition begins with it where one may. -/
def AtStatement (as : Array Assignment) (t : Token) : Prop :=
  t.kind ≠ .newline ∧ (as = #[] → t.kind ≠ .realWord ∧ t.kind ≠ .integerWord)

/-- The definitions were read up to the line feed behind them; the first line comes
behind `begin`. -/
def Headed (ds : Array Definition) (r : Reading) : Prop :=
  r = ⟨ds, #[], .heading⟩ ∨ r = ⟨ds, #[], .line⟩

/-- What was read of an assignment before its target. -/
def beforeTarget : Option Literal → Phase
  | some l => .labelled l
  | none => .line

theorem ended_line (ds : Array Definition) (as : Array Assignment) (t : Token) :
    Ended ds as t ⟨ds, as, .line⟩ :=
  ⟨fun _ hu => .blank hu, fun h => absurd rfl h, by simp, fun _ => rfl⟩

theorem ended_heading (ds : Array Definition) (as : Array Assignment)
    (hk : t.kind ≠ .realWord ∧ t.kind ≠ .integerWord) : Ended ds as t ⟨ds, as, .heading⟩ := by
  refine ⟨fun _ hu => .heads hu, fun _ hne => ?_, by simp, fun h => by cases h⟩
  have hviolation : Phase.heading.violation t = .inLine t.kind := by
    simp only [Phase.violation]
    split
    · next h => exact absurd h hk.1
    · next h => exact absurd h hk.2
    · rfl
  rw [← hviolation]
  exact Reading.refuses_of_step (by simp) (by simp only [Reading.step, if_neg hne])

theorem ended_operator {head : Head} {f : Frame} {b : Expr} (hk : t.kind.level? = none) :
    Ended ds (as.push ⟨head.label, head.target, f.closeSum b⟩) t
      ⟨ds, as, .operator head f [] b⟩ := by
  refine ⟨fun _ hu => .assigned hu, fun _ hne => ?_, by simp, fun h => by cases h⟩
  apply Reading.refuses_of_step (by simp)
  rw [Reading.step_operator hk, Reading.stepClose, if_neg hne]

namespace Headed

theorem next (h : Headed ds r) (ht : t.kind = .newline) : Reading.Next r t ⟨ds, #[], .line⟩ := by
  rcases h with rfl | rfl
  · exact .heads ht
  · exact .blank ht

theorem phase_ne_start (h : Headed ds r) : r.phase ≠ .start := by
  rcases h with rfl | rfl <;> simp

theorem eq_of_line (h : Headed ds r) (hline : r.phase = .line) : r = ⟨ds, #[], .line⟩ := by
  apply h.resolve_left
  rintro rfl
  cases hline

theorem ended (h : Headed ds r) (hk : t.kind ≠ .realWord ∧ t.kind ≠ .integerWord) :
    Ended ds #[] t r := by
  rcases h with rfl | rfl
  · exact ended_heading ds #[] hk
  · exact ended_line ds #[] t

end Headed

/-- A line that begins with no statement is not even the last one. -/
theorem step_line_eq_reject (h : AtStatement as t) (hint : t.kind ≠ .literalInt)
    (hname : t.kind ≠ .identifier) (hend : t.kind ≠ .endWord) :
    Reading.step ⟨ds, as, .line⟩ t = Reading.reject ⟨ds, as, .line⟩ t := by
  have hempty : t.kind = .realWord ∨ t.kind = .integerWord → ¬ as.isEmpty = true := by
    intro hk has
    obtain ⟨hreal, hinteger⟩ := h.2 (Array.isEmpty_iff.mp has)
    exact hk.elim hreal hinteger
  simp only [Reading.step]
  unfold Reading.stepLine
  split
  · next hk => exact absurd hk h.1
  · next hk => rw [if_neg (hempty (.inl hk))]
  · next hk => rw [if_neg (hempty (.inr hk))]
  · next hk => exact absurd hk hint
  · next hk => exact absurd hk hname
  · next hk => exact absurd hk hend
  · rfl

/-! ### Lines -/

section
variable (he : FirstEnd ts e) {limit : Nat} (hlimit : e < limit)

section
include he hlimit

/-- The names or numbers of a definition, behind which it may end. -/
theorem meets_declared {keyword : Token} {phase : Phase}
    (hk : keyword.kind = .realWord ∧ phase = .names keyword #[] ∨
      keyword.kind = .integerWord ∧ phase = .integers keyword #[])
    (halong : Along ts e c ⟨ds, as, phase⟩) :
    Meets ts e (declared limit keyword) c ⟨ds, as, phase⟩ fun d i r =>
      (∀ t, t.kind = .newline → Reading.Next r t ⟨ds.push d, as, .line⟩) ∧
        ∀ t, ts[i]? = some t → t.kind ≠ .newline →
          r.Refuses t (.unexpectedToken Violation.definitionUnfinished.message) := by
  unfold declared
  rcases hk with ⟨hk, rfl⟩ | ⟨hk, rfl⟩
  · rw [if_pos hk]
    apply Meets.bind (Meets.items he hlimit .names (.names _) ?_ halong)
    · rintro ns c' _ - halong' ⟨hns, rfl, hnot⟩
      refine Meets.ret halong' ⟨fun u hu => .names hu hns, fun u hu hne => ?_⟩
      have hrefuses := Reading.refuses_of_step (r := ⟨ds, as, .names keyword ns⟩) (t := u)
        (by simp) (by simp [Reading.step, hnot u hu, hne])
      simpa [Phase.violation, hns] using hrefuses
    · intro c ns u halong hu hns
      refine (Meets.expect he halong hu (fun hname => .name (by simpa using hname)) ?_).imp ?_
      · intro hname
        have hkind : u.kind ≠ .identifier := by simpa using hname
        obtain rfl : ns = #[] := hns.resolve_right hkind
        exact Reading.refuses_of_step (by simp) (by simp [Reading.step, hkind])
      · rintro _ i s - ⟨rfl, -, hi, rfl⟩
        exact ⟨hi, rfl⟩
  · rw [if_neg (by simp [hk])]
    apply Meets.bind (Meets.items he hlimit .integers (.integers _) ?_ halong)
    · rintro ls c' _ - halong' ⟨hls, rfl, hnot⟩
      refine Meets.ret halong' ⟨fun u hu => .wholes hu hls, fun u hu hne => ?_⟩
      have hrefuses := Reading.refuses_of_step (r := ⟨ds, as, .integers keyword ls⟩) (t := u)
        (by simp) (by simp [Reading.step, hnot u hu, hne])
      simpa [Phase.violation, hls] using hrefuses
    · intro c ls u halong hu hls
      refine Meets.integer he halong hu (fun l => .integers keyword (ls.push l)) ?_ ?_
      · intro hkind
        simp only [Reading.step, if_pos hkind]
      · intro hkind
        obtain rfl : ls = #[] := hls.resolve_right hkind
        exact Reading.refuses_of_step (by simp) (by simp [Reading.step, hkind])

/-- **A definition takes its keyword, its items and its line feed.** -/
theorem meets_definition (halong : Along ts e c ⟨ds, #[], .line⟩) (ht : ts[c.current]? = some t)
    (hk : t.kind = .realWord ∨ t.kind = .integerWord) :
    Meets ts e (definition limit) c ⟨ds, #[], .line⟩ fun d i r =>
      c.current < i ∧ r = ⟨ds.push d, #[], .line⟩ := by
  obtain ⟨phase, hnext, hphase⟩ : ∃ phase, Reading.Next ⟨ds, #[], .line⟩ t ⟨ds, #[], phase⟩ ∧
      (t.kind = .realWord ∧ phase = .names t #[] ∨
        t.kind = .integerWord ∧ phase = .integers t #[]) := by
    rcases hk with hk | hk
    · exact ⟨_, .real hk, .inl ⟨hk, rfl⟩⟩
    · exact ⟨_, .integer hk, .inr ⟨hk, rfl⟩⟩
  unfold definition
  apply Meets.bind (Meets.expect he halong ht (fun _ => hnext)
    fun hne => absurd (by simpa using hk) hne)
  rintro _ c₁ _ - halong₁ ⟨rfl, -, hcurrent₁, rfl⟩
  apply Meets.bind (meets_declared he hlimit hphase halong₁)
  rintro d c₂ r hle₂ halong₂ ⟨hbreaks, hrefuses⟩
  obtain ⟨u, hu⟩ := exists_token he halong₂.toTidy
  apply Meets.bind (Meets.expect he halong₂ hu (fun hnewline => hbreaks u (by simpa using hnewline))
    fun hne => hrefuses u hu (by simpa using hne))
  rintro _ c₃ _ hle₃ halong₃ ⟨-, -, -, rfl⟩
  exact Meets.ret halong₃ ⟨by omega, rfl⟩

end

section
include he

/-- A label may come before the target. -/
theorem meets_label (halong : Along ts e c ⟨ds, as, .line⟩) (ht : ts[c.current]? = some t) :
    Meets ts e label c ⟨ds, as, .line⟩ fun l i r => r = ⟨ds, as, beforeTarget l⟩ ∧
      (l = none → i = c.current ∧ t.kind ≠ .literalInt) := by
  apply Meets.look (run_check he halong.toTidy ht _)
  by_cases hk : t.kind = .literalInt
  · rw [if_pos (by simpa using hk)]
    apply Meets.bind (Meets.integer he halong ht .label
      (fun _ => by simp only [Reading.step, Reading.stepLine, hk]) fun hne => absurd hk hne)
    rintro l c₁ _ - halong₁ ⟨-, rfl⟩
    obtain ⟨u, hu⟩ := exists_token he halong₁.toTidy
    apply Meets.bind (Meets.expect he halong₁ hu (fun hcolon => .colon (by simpa using hcolon)) ?_)
    · rintro _ c₂ _ - halong₂ ⟨-, -, -, rfl⟩
      exact Meets.ret halong₂ ⟨rfl, fun hnone => by cases hnone⟩
    · intro hne
      have hcolon : u.kind ≠ .colon := by simpa using hne
      exact Reading.refuses_of_step (by simp) (by simp only [Reading.step, if_neg hcolon])
  · rw [if_neg (by simpa using hk)]
    exact Meets.ret halong ⟨rfl, fun _ => ⟨rfl, hk⟩⟩

/-- The target, with a label before it or without one. -/
theorem meets_target {l : Option Literal} (halong : Along ts e c ⟨ds, as, beforeTarget l⟩)
    (ht : ts[c.current]? = some t) (hl : l = none → t.kind = .identifier) :
    Meets ts e (expect [.identifier] Violation.targetMissing.message) c ⟨ds, as, beforeTarget l⟩
      fun target _ r => r = ⟨ds, as, .target ⟨l, target⟩⟩ := by
  have hok : t.kind ∈ [Kind.identifier] →
      Reading.Next ⟨ds, as, beforeTarget l⟩ t ⟨ds, as, .target ⟨l, t⟩⟩ := by
    intro hname
    have hk : t.kind = .identifier := by simpa using hname
    cases l with
    | some l => exact .labelled hk
    | none => exact .target hk
  refine (Meets.expect he halong ht hok ?_).imp ?_
  · intro hne
    have hk : t.kind ≠ .identifier := by simpa using hne
    cases l with
    | some l =>
      exact Reading.refuses_of_step (by simp [beforeTarget])
        (by simp only [beforeTarget, Reading.step, if_neg hk])
    | none => exact absurd (hl rfl) hk
  · rintro _ i _ - ⟨rfl, -, -, rfl⟩
    rfl

end

include he hlimit

/-- **An assignment ends with its right side.** -/
theorem meets_assignment (halong : Along ts e c ⟨ds, as, .line⟩) (ht : ts[c.current]? = some t)
    (hk : t.kind = .literalInt ∨ t.kind = .identifier) :
    Meets ts e (assignment limit) c ⟨ds, as, .line⟩ fun a i r => c.current < i ∧
      ∀ t, ts[i]? = some t → Ended ds (as.push a) t r := by
  unfold assignment
  apply Meets.bind (meets_label he halong ht)
  rintro l c₁ _ hle₁ halong₁ ⟨rfl, hnone⟩
  obtain ⟨u, hu⟩ := exists_token he halong₁.toTidy
  apply Meets.bind (meets_target he halong₁ hu ?_)
  · rintro target c₂ _ hle₂ halong₂ rfl
    obtain ⟨v, hv⟩ := exists_token he halong₂.toTidy
    apply Meets.bind (Meets.expect he halong₂ hv (fun hassign => .equals (by simpa using hassign)) ?_)
    · rintro _ c₃ _ hle₃ halong₃ ⟨-, -, hcurrent₃, rfl⟩
      have hreads : Reads ts e 0 (.chain .sum) (expression limit limit) :=
        reads_expression he hlimit (by omega)
      apply Meets.bind (hreads (Nat.zero_le _) halong₃ rfl fun hne => absurd rfl hne)
      rintro a c₄ _ - halong₄ ⟨hlt₄, ⟨g, b, rfl, -, rfl⟩, hfollow⟩
      refine Meets.ret halong₄ ⟨by omega, fun w hw => ?_⟩
      exact @ended_operator w ds as ⟨l, target⟩ g b (hfollow w hw)
    · intro hne
      have hassign : v.kind ≠ .assign := by simpa using hne
      exact Reading.refuses_of_step (by simp) (by simp only [Reading.step, if_neg hassign])
  · intro hl
    obtain ⟨hcurrent, hne⟩ := hnone hl
    rw [hcurrent] at hu
    obtain rfl : t = u := Option.some.inj (ht.symm.trans hu)
    exact hk.resolve_left hne

/-! ### All lines -/

/-- **Definitions are read as long as lines begin with their keywords.** -/
theorem meets_definitions (halong : Along ts e c ⟨#[], #[], .heading⟩) :
    Meets ts e (definitions limit) c ⟨#[], #[], .heading⟩ fun ds i s =>
      ∀ t, ts[i]? = some t → AtStatement #[] t ∧ Ended ds #[] t s := by
  refine Meets.loop (I := fun ds _ r => Headed ds r)
    (J := fun ds i r => Headed ds r ∧ ∃ t, ts[i]? = some t ∧ t.kind ≠ .newline ∧
      (t.kind = .realWord ∨ t.kind = .integerWord))
    .definitions ?_ ?_ halong (by omega) (.inl rfl)
  · intro ds c r halong hr
    apply Meets.bind (Meets.skipLineFeeds he hlimit halong fun _ => hr.next)
    rintro _ c₁ s - halong₁ ⟨hnot, hs⟩
    have hheaded : Headed ds s := by
      rcases hs with ⟨-, rfl⟩ | rfl
      · exact hr
      · exact .inr rfl
    obtain ⟨t, ht⟩ := exists_token he halong₁.toTidy
    refine Meets.check he halong₁ ht _ ?_ ?_
    · intro hk
      exact ⟨hheaded, t, ht, hnot t ht, by simpa using hk⟩
    · intro hk u hu
      obtain rfl : t = u := Option.some.inj (ht.symm.trans hu)
      have hkind : t.kind ≠ .realWord ∧ t.kind ≠ .integerWord := by simpa using hk
      exact ⟨⟨hnot t ht, fun _ => hkind⟩, hheaded.ended hkind⟩
  · rintro ds c r halong ⟨hr, t, ht, hnot, hk⟩
    apply Meets.bind (Meets.beginLine he hlimit halong ht hnot hr.phase_ne_start ?_)
    · rintro _ c₁ _ - halong₁ ⟨hcurrent₁, rfl, hline⟩
      obtain rfl := hr.eq_of_line hline
      rw [← hcurrent₁] at ht
      apply Meets.bind (meets_definition he hlimit halong₁ ht hk)
      rintro d c₂ _ - halong₂ ⟨hlt₂, rfl⟩
      exact Meets.ret halong₂ ⟨by omega, .inr rfl⟩
    · intro hline
      obtain rfl := hr.resolve_right (by rintro rfl; exact hline rfl)
      have hviolation : Phase.heading.violation t = .definitionInLine := by
        rcases hk with hk | hk <;> simp only [Phase.violation, hk]
      rw [← hviolation]
      exact Reading.refuses_of_step (by simp) (by simp only [Reading.step, if_neg hnot])

/-- **Assignments are read as long as lines begin with a label or a target.** -/
theorem meets_assignments (halong : Along ts e c r) (ht : ts[c.current]? = some t)
    (hstatement : AtStatement #[] t) (hended : Ended ds #[] t r) :
    Meets ts e (assignments limit) c r fun as i s => ∀ t, ts[i]? = some t →
      AtStatement as t ∧ Ended ds as t s ∧ t.kind ≠ .literalInt ∧ t.kind ≠ .identifier := by
  refine Meets.loop
    (I := fun as i r => ∃ t, ts[i]? = some t ∧ AtStatement as t ∧ Ended ds as t r)
    (J := fun as i r => ∃ t, ts[i]? = some t ∧ AtStatement as t ∧ Ended ds as t r ∧
      (t.kind = .literalInt ∨ t.kind = .identifier))
    .assignments ?_ ?_ halong (by omega) ⟨t, ht, hstatement, hended⟩
  · rintro as c r halong ⟨t, ht, hstatement, hended⟩
    refine Meets.check he halong ht _ ?_ ?_
    · intro hk
      exact ⟨t, ht, hstatement, hended, by simpa using hk⟩
    · intro hk u hu
      obtain rfl : t = u := Option.some.inj (ht.symm.trans hu)
      exact ⟨hstatement, hended, by simpa using hk⟩
  · rintro as c r halong ⟨t, ht, hstatement, hended, hk⟩
    apply Meets.bind (Meets.beginLine he hlimit halong ht hstatement.1 hended.phase_ne_start ?_)
    · rintro _ c₁ _ - halong₁ ⟨hcurrent₁, rfl, hline⟩
      obtain rfl := hended.eq_of_line hline
      rw [← hcurrent₁] at ht
      apply Meets.bind (meets_assignment he hlimit halong₁ ht hk)
      rintro a c₂ s - halong₂ ⟨hlt₂, hended₂⟩
      obtain ⟨u, hu⟩ := exists_token he halong₂.toTidy
      apply Meets.bind (Meets.skipLineFeeds he hlimit halong₂ (hended₂ u hu).breaks)
      rintro _ c₃ s' hle₃ halong₃ ⟨hnot, hs⟩
      obtain ⟨v, hv⟩ := exists_token he halong₃.toTidy
      have hended₃ : Ended ds (as.push a) v s' := by
        rcases hs with ⟨hcurrent₃, rfl⟩ | rfl
        · exact hended₂ v (hcurrent₃ ▸ hv)
        · exact ended_line ds _ v
      have hstatement₃ : AtStatement (as.push a) v := ⟨hnot v hv, fun hempty => by simp at hempty⟩
      exact Meets.ret halong₃ ⟨by omega, v, hv, hstatement₃, hended₃⟩
    · intro hline
      have hviolation : Violation.inLine t.kind = .assignmentInLine := by
        rcases hk with hk | hk <;> rw [hk] <;> rfl
      rw [← hviolation]
      exact hended.refuses hline hstatement.1

/-- **Nothing but `end` can follow the statements.** -/
theorem meets_body :
    Meets ts e (body limit) .start .start fun p _ s => s.phase = .ended ∧ p = s.program := by
  obtain ⟨t, ht⟩ := exists_token he (tidy_start e)
  unfold body
  apply Meets.bind (Meets.expect he (along_start ts e) ht
    (fun hbegin => .opens (by simpa using hbegin)) ?_)
  · rintro _ c₁ _ - halong₁ ⟨-, -, -, rfl⟩
    apply Meets.bind (meets_definitions he hlimit halong₁)
    rintro ds c₂ r - halong₂ hdefinitions
    obtain ⟨u, hu⟩ := exists_token he halong₂.toTidy
    obtain ⟨hstatement, hended⟩ := hdefinitions u hu
    apply Meets.look (Meets.run_skipLineFeeds he hlimit halong₂.toTidy hu hstatement.1)
    apply Meets.bind (meets_assignments he hlimit halong₂ hu hstatement hended)
    rintro as c₃ r' - halong₃ hassignments
    obtain ⟨v, hv⟩ := exists_token he halong₃.toTidy
    obtain ⟨hstatement₃, hended₃, hint, hname⟩ := hassignments v hv
    apply Meets.bind (Meets.beginLine he hlimit halong₃ hv hstatement₃.1 hended₃.phase_ne_start ?_)
    · rintro _ c₄ _ - halong₄ ⟨hcurrent₄, rfl, hline⟩
      obtain rfl := hended₃.eq_of_line hline
      rw [← hcurrent₄] at hv
      apply Meets.bind (Meets.expect he halong₄ hv (fun hend => .ends (by simpa using hend)) ?_)
      · rintro _ c₅ _ - halong₅ ⟨-, -, -, rfl⟩
        exact Meets.ret halong₅ ⟨rfl, rfl⟩
      · intro hend
        exact Reading.refuses_of_step (by simp)
          (step_line_eq_reject hstatement₃ hint hname (by simpa using hend))
    · intro hline
      have hviolation : Violation.inLine v.kind = .endInLine := by
        unfold Violation.inLine
        split
        · next h => exact absurd h hint
        · next h => exact absurd h hname
        · rfl
      rw [← hviolation]
      exact hended₃.refuses hline hstatement₃.1
  · intro hbegin
    have hk : t.kind ≠ .beginWord := by simpa using hbegin
    exact Reading.refuses_of_step (by simp [Reading.start])
      (by simp only [Reading.start, Reading.step, if_neg hk])

end

/-! ### The end of the text -/

/-- The account of a descent that came to `result` over tokens with their first end at
number `e`. -/
structure Account (ts : List Token) (e : Nat) (result : Except Diagnostic Program) (c : Cursor) :
    Prop where
  /-- Up to the end each call of `advance` went on by one token; a program was read when
  the last call passed the end, which left the text only if more tokens follow. -/
  moves_of_ok : ∀ p, result = .ok p →
    c.moves = oneByOne e ++ [(e, if e + 1 < ts.length then e + 1 else e)]
  /-- A descent that stopped did not pass the end. -/
  moves_of_error : ∀ d, result = .error d → ∃ n, n ≤ e ∧ c.moves = oneByOne n
  /-- Every round passed a token. -/
  before_lt_after : ∀ m ∈ c.marks, m.before < m.after

/-- A descent that stopped before the end did so where it was. -/
theorem Tidy.account {d : Diagnostic} (h : Tidy e c) : Account ts e (.error d) c where
  moves_of_ok p hp := by cases hp
  moves_of_error _ _ := ⟨c.current, h.current_le, h.moves_eq⟩
  before_lt_after := h.before_lt_after

theorem Account.length_moves {p : Program} (h : Account ts e (.ok p) c) : c.moves.length = e + 1 := by
  rw [h.moves_of_ok p rfl, List.length_append, length_oneByOne]
  rfl

theorem Account.length_moves_le {result : Except Diagnostic Program} (h : Account ts e result c) :
    c.moves.length ≤ e + 1 := by
  cases result with
  | ok p => exact Nat.le_of_eq h.length_moves
  | error d =>
    obtain ⟨n, hn, hmoves⟩ := h.moves_of_error d rfl
    rw [hmoves, length_oneByOne]
    omega

section
variable (he : FirstEnd ts e)
include he

/-- Behind `end` the end of the text is passed, or whatever else comes is refused. -/
theorem exists_account_of_ended (halong : Along ts e c r) (hr : r.phase = .ended) :
    ∃ c', (expect [.eof] Violation.inputAfterEnd.message >>= fun _ => pure r.program).run ts c =
      some ((answer ts c r).mapError .fault, c') ∧ Account ts e (answer ts c r) c' := by
  obtain ⟨t, ht⟩ := exists_token he halong.toTidy
  have hcheck := run_check he halong.toTidy ht [.eof]
  unfold expect
  rw [bind_assoc, Walk.run_bind_of_ok hcheck]
  by_cases hk : t.kind = .eof
  · have hcurrent : c.current = e := by
      by_contra hne
      exact he.kind_ne _ t (Nat.lt_of_le_of_ne halong.current_le hne) ht hk
    have hok : answer ts c r = .ok r.program := by
      unfold answer
      rw [drop_current ht, Reading.run, if_pos hk, Reading.finish_eq_ok_iff.mpr ⟨hr, rfl⟩]
      rfl
    obtain ⟨c', hadvance, hmoves, hmarks⟩ := run_advance_end he halong.toTidy ht hcurrent
    rw [hok, if_pos (by simpa using hk), Walk.run_bind_of_ok hadvance]
    refine ⟨c', rfl, fun _ _ => hmoves, fun d hd => ?_, ?_⟩
    · cases hd
    · rw [hmarks]
      exact halong.before_lt_after
  · have hrefuses : r.Refuses t (.unexpectedToken Violation.inputAfterEnd.message) := by
      rw [Reading.Refuses, if_neg hk, Reading.step, hr]
      simp only [Reading.reject, hr, Phase.violation]
    have hstop := run_refuse (α := Token) he halong.toTidy ht Violation.inputAfterEnd.message
    rw [answer_of_refuses ht hrefuses, if_neg (by simpa using hk), Walk.run_bind_of_error hstop]
    exact ⟨c, rfl, halong.toTidy.account⟩

/-- **A descent comes to what the reading comes to**, and its account is in order. -/
theorem exists_account {limit : Nat} (hlimit : e < limit) : ∃ c, (program limit).run ts .start =
    some ((answer ts .start .start).mapError .fault, c) ∧
      Account ts e (answer ts .start .start) c := by
  unfold program
  cases meets_body he hlimit with
  | stops hrun htidy hanswer =>
    rw [hanswer]
    exact ⟨_, Walk.run_bind_of_error hrun, htidy.account⟩
  | returns hrun halong _ hanswer hpost =>
    obtain ⟨hended, rfl⟩ := hpost
    rw [← hanswer, Walk.run_bind_of_ok hrun]
    exact exists_account_of_ended he halong hended

end

/-- The first end among tokens with their end. -/
theorem firstEnd_withEnd (ts : List Token) :
    FirstEnd (withEnd ts) ((withEnd ts).findIdx fun t => t.kind == .eof) where
  lt_length := by
    obtain ⟨t, ht, hk⟩ := exists_eof_withEnd ts
    exact List.findIdx_lt_length_of_exists ⟨t, ht, by simpa using hk⟩
  kind_eq t ht := by
    obtain ⟨hlt, rfl⟩ := List.getElem?_eq_some_iff.mp ht
    simpa using List.findIdx_getElem (w := hlt)
  kind_ne i t hi ht := by
    obtain ⟨hlt, rfl⟩ := List.getElem?_eq_some_iff.mp ht
    simpa using List.not_of_lt_findIdx hi

/-- **Every descent ends, since every round of it passes a token.** Over any tokens, with
their end after them and the first end at number `e`, the descent under any limit above
`e` comes to what `parse` comes to, always in the same way: it is not given up, and it
does not look for a token outside the list. Up to the end every call of `advance` goes on
by one token, so the next token is never one behind the end; there are `e + 1` calls if
the tokens are a program, the last one for the end itself, and no more than `e`
otherwise. Every round of a loop that comes to its end makes a call, and every way into
brackets has made one. -/
theorem descent_passes_tokens (ts : List Token) :
    let us := withEnd ts
    let e := us.findIdx fun t => t.kind == .eof
    e < us.length ∧ ∃ c,
      (∀ limit, e < limit →
        (program limit).run us .start = some ((parse ts).mapError .fault, c)) ∧
      (∀ p, parse ts = .ok p →
        c.moves = oneByOne e ++ [(e, if e + 1 < us.length then e + 1 else e)]) ∧
      (∀ d, parse ts = .error d → ∃ n, n ≤ e ∧ c.moves = oneByOne n) ∧
      (∀ p, parse ts = .ok p → c.moves.length = e + 1) ∧ c.moves.length ≤ e + 1 ∧
      ∀ m ∈ c.marks, m.before < m.after := by
  intro us e
  have he : FirstEnd us e := firstEnd_withEnd ts
  have hparse : answer us .start .start = parse ts := (parse_eq_run_withEnd ts _).symm
  obtain ⟨c, hrun, haccount⟩ := exists_account he (Nat.lt_succ_self e)
  rw [hparse] at hrun haccount
  refine ⟨he.lt_length, c, ?_, haccount.moves_of_ok, haccount.moves_of_error, ?_,
    haccount.length_moves_le, haccount.before_lt_after⟩
  · intro limit hlimit
    exact program_below hlimit us .start _ hrun
  · intro p hp
    rw [hp] at haccount
    exact haccount.length_moves

end Descent
end AssignLang
