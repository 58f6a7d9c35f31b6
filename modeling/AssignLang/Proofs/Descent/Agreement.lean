/-
# Descents and readings

A reading takes the tokens one after the other, and a descent has its rules for them;
`Meets` says that the two agree on what a part of a descent does. The part is not given
up. Either it returns, and the reading came to the same place, with what is left to do
for both; or it stops with the diagnostic that the reading ends with. In both cases the
account of the cursor is in order. `Meets.bind` puts two parts together, and `Meets.loop`
the rounds of a loop: each of them passes a token, so there are no more of them than
tokens. The other rules here are those for the parts that no rule of the grammar stands
in.

Key definitions: `Along`, `answer`, `Meets`.
Key theorems: `Meets.bind`, `Meets.turn`, `Meets.loop`, `Meets.expect`, `Meets.numeral`,
`Meets.skipLineFeeds`, `Meets.beginLine`, `Meets.items`.
-/
import AssignLang.Proofs.Descent.Cursor
import AssignLang.Proofs.Reading.BlankLines
import AssignLang.Proofs.Reading.Language

namespace AssignLang

namespace Reading

/-- A line begins behind a line feed and nowhere else. -/
theorem Next.phase_eq_line_iff {r r' : Reading} {t : Token} (h : Next r t r') :
    r'.phase = .line ↔ t.kind = .newline := by
  refine ⟨fun hline => ?_, h.phase_of_newline⟩
  cases h with
  | heads h | blank h | assigned h => exact h
  | names h | wholes h => exact h
  | _ => cases hline

/-- A token that cannot come next is refused, the end of the text among them. -/
theorem refuses_of_step {r : Reading} {t : Token} (hr : r.phase ≠ .ended) (h : r.step t = r.reject t) :
    r.Refuses t (.unexpectedToken (r.phase.violation t).message) := by
  unfold Refuses
  by_cases ht : t.kind = .eof
  · rw [if_pos ht]
    unfold finish
    split
    · next hended => exact absurd hended hr
    · rfl
  · rw [if_neg ht]
    exact h

end Reading

namespace Descent

variable {α β : Type} {ts : List Token} {e : Nat} {c c' : Cursor} {r r' : Reading} {t : Token}

/-! ### The place of a reading -/

/-- The reading was made of the tokens before the cursor, as far as can be seen of it:
it has not begun without them, and a line begins behind a line feed. -/
structure Along (ts : List Token) (e : Nat) (c : Cursor) (r : Reading) : Prop extends Tidy e c where
  start : c.current = 0 → r.phase = .start
  line : ∀ i t, c.current = i + 1 → ts[i]? = some t → (r.phase = .line ↔ t.kind = .newline)

theorem along_start (ts : List Token) (e : Nat) : Along ts e .start .start :=
  ⟨tidy_start e, fun _ => rfl, fun i t hi => by simp [Cursor.start] at hi⟩

theorem Along.next (h : Along ts e c r) (ht : ts[c.current]? = some t) (hlt : c.current < e)
    (hr : Reading.Next r t r') : Along ts e c.next r' := by
  refine ⟨h.toTidy.next hlt, fun hzero => absurd hzero (Nat.succ_ne_zero _), ?_⟩
  intro i u hi hu
  obtain rfl : c.current = i := Nat.succ.inj hi
  obtain rfl : t = u := Option.some.inj (ht.symm.trans hu)
  exact hr.phase_eq_line_iff

theorem Along.marked (h : Along ts e c r) {m : Mark} (hm : m.before < m.after) :
    Along ts e (c.marked m) r :=
  ⟨h.toTidy.marked hm, h.start, h.line⟩

/-- What the reading comes to with the tokens from the cursor on. -/
def answer (ts : List Token) (c : Cursor) (r : Reading) : Except Diagnostic Program :=
  r.run (Token.endAfter ts) (ts.take c.current).reverse (ts.drop c.current)

theorem drop_current (ht : ts[c.current]? = some t) :
    ts.drop c.current = t :: ts.drop (c.current + 1) := by
  obtain ⟨hlt, rfl⟩ := List.getElem?_eq_some_iff.mp ht
  exact List.drop_eq_getElem_cons hlt

/-- One token is read, and the answer is the same. -/
theorem answer_next (ht : ts[c.current]? = some t) (hne : t.kind ≠ .eof) (hr : Reading.Next r t r') :
    answer ts c.next r' = answer ts c r := by
  have htake : (ts.take (c.current + 1)).reverse = t :: (ts.take c.current).reverse := by
    rw [List.take_add_one, ht, Option.toList_some, List.reverse_append]
    rfl
  unfold answer
  rw [drop_current ht, Reading.run, if_neg hne, hr.step_eq, Cursor.current_next, htake]

/-- A token that is refused is the answer. -/
theorem answer_of_refuses (ht : ts[c.current]? = some t) {cause : Cause} (hr : r.Refuses t cause) :
    answer ts c r = .error (Reading.fault (ts.take c.current).reverse t cause) := by
  unfold answer
  unfold Reading.Refuses at hr
  rw [drop_current ht, Reading.run]
  by_cases hend : t.kind = .eof
  · rw [if_pos hend] at hr ⊢
    rw [hr]
    rfl
  · rw [if_neg hend] at hr ⊢
    rw [hr]

/-! ### Parts of a descent -/

/-- **A part of a descent does what the reading does.** -/
inductive Meets (ts : List Token) (e : Nat) (x : Walk α) (c : Cursor) (r : Reading)
    (P : α → Nat → Reading → Prop) : Prop
  | returns {a : α} {c' : Cursor} {r' : Reading} (hrun : x.run ts c = some (.ok a, c'))
      (halong : Along ts e c' r') (hle : c.current ≤ c'.current)
      (hanswer : answer ts c' r' = answer ts c r) (hpost : P a c'.current r')
  | stops {d : Diagnostic} {c' : Cursor} (hrun : x.run ts c = some (.error (.fault d), c'))
      (htidy : Tidy e c') (hanswer : answer ts c r = .error d)

namespace Meets

variable {x y : Walk α} {f : α → Walk β} {P P' : α → Nat → Reading → Prop}
  {Q : β → Nat → Reading → Prop}

theorem of_run (h : Meets ts e y c r P) (hrun : x.run ts c = y.run ts c) :
    Meets ts e x c r P := by
  cases h with
  | returns hy halong hle hanswer hpost => exact returns (hrun.trans hy) halong hle hanswer hpost
  | stops hy htidy hanswer => exact stops (hrun.trans hy) htidy hanswer

theorem imp (h : Meets ts e x c r P)
    (hpost : ∀ a i s, c.current ≤ i → P a i s → P' a i s) : Meets ts e x c r P' := by
  cases h with
  | returns hrun halong hle hanswer ha =>
    exact returns hrun halong hle hanswer (hpost _ _ _ hle ha)
  | stops hrun htidy hanswer => exact stops hrun htidy hanswer

theorem ret {a : α} (halong : Along ts e c r) (hpost : P a c.current r) :
    Meets ts e (pure a) c r P :=
  returns (Walk.run_pure a) halong (Nat.le_refl _) rfl hpost

/-- **Two parts, one after the other.** -/
theorem bind (hx : Meets ts e x c r P) (hf : ∀ a c' r', c.current ≤ c'.current →
    Along ts e c' r' → P a c'.current r' → Meets ts e (f a) c' r' Q) :
    Meets ts e (x >>= f) c r Q := by
  cases hx with
  | @returns a c' r' hrun halong hle hanswer hpost =>
    have hbind := Walk.run_bind_of_ok (f := f) hrun
    cases hf a c' r' hle halong hpost with
    | returns hrun' halong' hle' hanswer' hpost' =>
      exact returns (hbind.trans hrun') halong' (Nat.le_trans hle hle')
        (hanswer'.trans hanswer) hpost'
    | stops hrun' htidy' hanswer' =>
      exact stops (hbind.trans hrun') htidy' (hanswer.symm.trans hanswer')
  | stops hrun htidy hanswer => exact stops (Walk.run_bind_of_error hrun) htidy hanswer

/-- A part that leaves the cursor as it is, and what comes after it. -/
theorem look {a : α} (hrun : x.run ts c = some (.ok a, c)) (h : Meets ts e (f a) c r Q) :
    Meets ts e (x >>= f) c r Q :=
  h.of_run (Walk.run_bind_of_ok hrun)

/-- **A round that passes a token** is in order in the account. -/
theorem turn (round : Round) (halong : Along ts e c r) (h : Meets ts e x c r P)
    (hlt : ∀ a i s, P a i s → c.current < i) : Meets ts e (turn round x) c r P := by
  unfold Descent.turn
  apply look run_calls
  apply bind h
  rintro a c' s - halong' hpost
  have hbefore : c.moves.length < c'.moves.length := by
    rw [halong.length_moves, halong'.length_moves]
    exact hlt a _ s hpost
  exact returns (Walk.run_bind_of_ok (run_mark round _)) (halong'.marked hbefore)
    (Nat.le_refl _) rfl hpost

/-- **A loop ends**, since every round of it passes a token: `I` is what holds before the
loop looks whether there is one more round, `J` before the round, and `P` at the end. -/
theorem loop {σ : Type} {I J P : σ → Nat → Reading → Prop} (round : Round) {again : Walk Bool}
    {step : σ → Walk σ}
    (hagain : ∀ s c r, Along ts e c r → I s c.current r → Meets ts e again c r fun b i r =>
      match b with
      | true => J s i r
      | false => P s i r)
    (hstep : ∀ s c r, Along ts e c r → J s c.current r → Meets ts e (step s) c r fun s' i r =>
      c.current < i ∧ I s' i r)
    {limit : Nat} {s : σ} (halong : Along ts e c r) (hlimit : e < c.current + limit)
    (hI : I s c.current r) : Meets ts e (loop round again step limit s) c r P := by
  induction limit generalizing c r s with
  | zero => exact absurd halong.current_le (Nat.not_le.mpr hlimit)
  | succ limit ih =>
    rw [Descent.loop]
    apply bind (hagain s c r halong hI)
    rintro b c₁ r₁ hle₁ halong₁ hb
    cases b with
    | false => exact ret halong₁ hb
    | true =>
      apply bind (turn round halong₁ (hstep s c₁ r₁ halong₁ hb) fun _ _ _ h => h.1)
      rintro s' c₂ r₂ - halong₂ ⟨hlt₂, hI'⟩
      exact ih halong₂ (by omega) hI'

section
variable (he : FirstEnd ts e) (halong : Along ts e c r) (ht : ts[c.current]? = some t)
include he halong ht

theorem lt_of_kind_ne (hne : t.kind ≠ .eof) : c.current < e := by
  apply Nat.lt_of_le_of_ne halong.current_le
  intro heq
  rw [heq] at ht
  exact hne (he.kind_eq t ht)

/-- The next token can come next. -/
theorem advance (hr : Reading.Next r t r') :
    Meets ts e advance c r fun a i s => a = t ∧ i = c.current + 1 ∧ s = r' := by
  have hlt := lt_of_kind_ne he halong ht hr.kind_ne_eof
  exact returns (run_advance he halong.toTidy ht hlt) (halong.next ht hlt hr) (Nat.le_succ _)
    (answer_next ht hr.kind_ne_eof hr) ⟨rfl, rfl, rfl⟩

theorem refuse {message : String} (hr : r.Refuses t (.unexpectedToken message)) :
    Meets ts e (refuse message) c r P :=
  stops (run_refuse he halong.toTidy ht message) halong.toTidy (answer_of_refuses ht hr)

theorem check (ks : List Kind) {P : Bool → Nat → Reading → Prop}
    (hyes : t.kind ∈ ks → P true c.current r) (hno : t.kind ∉ ks → P false c.current r) :
    Meets ts e (check ks) c r P := by
  refine returns (run_check he halong.toTidy ht ks) halong (Nat.le_refl _) rfl ?_
  by_cases hk : t.kind ∈ ks
  · rw [List.contains_iff_mem.mpr hk]
    exact hyes hk
  · rw [Bool.eq_false_iff.mpr fun h => hk (List.contains_iff_mem.mp h)]
    exact hno hk

/-- The next token can come next if it is of one of the kinds, and only then. -/
theorem expect {ks : List Kind} {message : String} (hok : t.kind ∈ ks → Reading.Next r t r')
    (hno : t.kind ∉ ks → r.Refuses t (.unexpectedToken message)) :
    Meets ts e (expect ks message) c r
      fun a i s => a = t ∧ t.kind ∈ ks ∧ i = c.current + 1 ∧ s = r' := by
  apply look (run_check he halong.toTidy ht ks)
  by_cases hk : t.kind ∈ ks
  · rw [if_pos (List.contains_iff_mem.mpr hk)]
    refine (advance he halong ht (hok hk)).imp ?_
    rintro a i s - ⟨ha, hi, hs⟩
    exact ⟨ha, hk, hi, hs⟩
  · rw [if_neg (fun h => hk (List.contains_iff_mem.mp h))]
    exact refuse he halong ht (hno hk)

/-- The next token is refused after it was passed. -/
theorem advance_fault {f : Token → Walk β} {cause : Cause} (hvisible : t.isVisible = true)
    (hr : r.Refuses t cause) (hf : f t = throw (.fault (t.fault cause))) :
    Meets ts e (Descent.advance >>= f) c r Q := by
  have hne : t.kind ≠ .eof := by
    intro hk
    simp [Token.isVisible, hk] at hvisible
  have hlt := lt_of_kind_ne he halong ht hne
  have hrun : (Descent.advance >>= f).run ts c =
      some (.error (.fault (t.fault cause)), c.next) := by
    rw [Walk.run_bind_of_ok (run_advance he halong.toTidy ht hlt), hf]
    rfl
  refine stops hrun (halong.toTidy.next hlt) ?_
  rw [answer_of_refuses ht hr, Reading.fault, Reading.pointAt, if_pos hvisible]
  rfl

/-- A literal whose text is no numeral is refused after it was passed. -/
theorem numeral (sort : String) (place : Literal → Phase)
    (hk : t.kind = .literalInt ∨ t.kind = .literalReal)
    (hstep : r.step t = (do let l ← Literal.ofToken sort t; r.go (place l))) :
    Meets ts e (do let t ← Descent.advance; literal t (Literal.ofToken sort t)) c r
      fun l i s => i = c.current + 1 ∧ s = { r with phase := place l } := by
  cases hl : Literal.ofToken sort t with
  | ok l =>
    rw [hl] at hstep
    apply bind (advance he halong ht (Reading.step_eq_ok_iff.mp hstep))
    rintro _ c' _ - halong' ⟨rfl, hcurrent, rfl⟩
    rw [hl]
    exact ret halong' ⟨hcurrent, rfl⟩
  | error cause =>
    rw [hl] at hstep
    have hne : t.kind ≠ .eof := by rcases hk with hk | hk <;> simp [hk]
    have hvisible : t.isVisible = true := by rcases hk with hk | hk <;> simp [Token.isVisible, hk]
    have hr : r.Refuses t cause := by
      rw [Reading.Refuses, if_neg hne]
      exact hstep
    apply advance_fault he halong ht hvisible hr
    rw [hl]
    rfl

theorem integer (place : Literal → Phase)
    (hok : t.kind = .literalInt → r.step t = (do let l ← Literal.integer t; r.go (place l)))
    (hno : t.kind ≠ .literalInt → r.Refuses t (.unexpectedToken Violation.integerMissing.message)) :
    Meets ts e integer c r
      fun l i s => i = c.current + 1 ∧ s = { r with phase := place l } := by
  have hcheck := run_check he halong.toTidy ht [.literalInt]
  unfold Descent.integer Descent.expect
  by_cases hk : t.kind = .literalInt
  · refine (numeral he halong ht "integer" place (.inl hk) (hok hk)).of_run ?_
    rw [bind_assoc, Walk.run_bind_of_ok hcheck, hk]
    rfl
  · rw [bind_assoc]
    apply look hcheck
    rw [if_neg (by simpa using hk)]
    exact bind (refuse he halong ht (hno hk)) (P := fun _ _ _ => False)
      fun _ _ _ _ _ hfalse => hfalse.elim

/-- A sign of any level is passed before its text is looked at. -/
theorem sign {ds : Array Definition} {as : Array Assignment} {head : Head} {g : Frame}
    {outer : List Frame} {b : Expr} {level : Level} (hk : t.kind.level? = some level)
    (hr : r = ⟨ds, as, .operator head g outer b⟩) :
    Meets ts e sign c r fun p i s => i = c.current + 1 ∧
      s = ⟨ds, as, .operand head (g.await level b p.2 p.1) outer⟩ := by
  subst hr
  have hsign := Kind.level?_eq_some_iff.mp hk
  unfold Descent.sign
  cases hop : BinaryOp.ofSymbol? t.text with
  | some op =>
    apply bind (advance he halong ht (.sign hk hop))
    rintro _ c' _ - halong' ⟨rfl, hcurrent, rfl⟩
    rw [hop]
    exact ret halong' ⟨hcurrent, rfl⟩
  | none =>
    have hne : t.kind ≠ .eof := by cases level <;> simp [hsign, Level.sign]
    have hvisible : t.isVisible = true := by
      cases level <;> simp [Token.isVisible, hsign, Level.sign]
    have hr : Reading.Refuses ⟨ds, as, .operator head g outer b⟩ t
        (.unexpectedToken Violation.unknownOperator.message) := by
      rw [Reading.Refuses, if_neg hne]
      simp only [Reading.step, Reading.stepOperator, hk, hop]
    apply advance_fault he halong ht hvisible hr
    rw [hop]

end

/-! ### Line feeds and lists -/

section
variable (he : FirstEnd ts e) {limit : Nat} (hlimit : e < limit)
include he hlimit

/-- There are no line feeds to pass. -/
theorem run_skipLineFeeds (hc : Tidy e c) (ht : ts[c.current]? = some t)
    (hk : t.kind ≠ .newline) : (skipLineFeeds limit).run ts c = some (.ok (), c) := by
  obtain ⟨n, rfl⟩ : ∃ n, limit = n + 1 := Nat.exists_eq_succ_of_ne_zero (by omega)
  rw [Descent.skipLineFeeds, Descent.loop, Walk.run_bind_of_ok (run_check he hc ht _),
    if_neg (by simpa using hk)]
  rfl

/-- **Line feeds are passed one by one**, and behind the first of them a line begins. -/
theorem skipLineFeeds {ds : Array Definition} {as : Array Assignment} (halong : Along ts e c r)
    (hr : ∀ t, t.kind = .newline → Reading.Next r t ⟨ds, as, .line⟩) :
    Meets ts e (skipLineFeeds limit) c r fun _ i s =>
      (∀ t, ts[i]? = some t → t.kind ≠ .newline) ∧
        (i = c.current ∧ s = r ∨ s = ⟨ds, as, .line⟩) := by
  refine loop (I := fun _ i s => i = c.current ∧ s = r ∨ s = ⟨ds, as, .line⟩)
    (J := fun _ i s => (∃ t, ts[i]? = some t ∧ t.kind = .newline) ∧
      (i = c.current ∧ s = r ∨ s = ⟨ds, as, .line⟩)) .lineFeeds ?_ ?_ halong (by omega)
    (.inl ⟨rfl, rfl⟩)
  · intro _ c₁ s halong₁ hs
    obtain ⟨t, ht⟩ := exists_token he halong₁.toTidy
    refine check he halong₁ ht _ (fun hk => ⟨⟨t, ht, by simpa using hk⟩, hs⟩) fun hk => ⟨?_, hs⟩
    intro u hu
    obtain rfl : t = u := Option.some.inj (ht.symm.trans hu)
    simpa using hk
  · rintro _ c₁ s halong₁ ⟨⟨t, ht, hk⟩, hs⟩
    have hnext : Reading.Next s t ⟨ds, as, .line⟩ := by
      rcases hs with ⟨-, rfl⟩ | rfl
      · exact hr t hk
      · exact .blank hk
    apply bind (advance he halong₁ ht hnext)
    rintro _ c₂ _ - halong₂ ⟨-, hcurrent₂, rfl⟩
    exact ret halong₂ ⟨by omega, .inr rfl⟩

/-- Where no line begins, the next token is refused. -/
theorem beginLine (halong : Along ts e c r) (ht : ts[c.current]? = some t) (hk : t.kind ≠ .newline)
    (hstart : r.phase ≠ .start) {message : String}
    (hno : r.phase ≠ .line → r.Refuses t (.unexpectedToken message)) :
    Meets ts e (beginLine limit message) c r
      fun _ i s => i = c.current ∧ s = r ∧ r.phase = .line := by
  have hcurrent : c.current ≠ 0 := fun hzero => hstart (halong.start hzero)
  have hprevious : c.previous = some (c.current - 1) := by
    rw [halong.previous_eq, if_neg hcurrent]
  have hle := halong.current_le
  have hlt := he.lt_length
  have hu : ts[c.current - 1]? = some ts[c.current - 1] := List.getElem?_eq_getElem (by omega)
  have hline := halong.line _ _ (by omega) hu
  unfold Descent.beginLine
  apply look (run_skipLineFeeds he hlimit halong.toTidy ht hk)
  apply look Walk.run_get
  rw [hprevious]
  apply look (run_tokenAt hu)
  by_cases hphase : r.phase = .line
  · rw [if_neg (not_not.mpr (hline.mp hphase))]
    exact ret halong ⟨rfl, rfl, hphase⟩
  · rw [if_pos (fun hnewline => hphase (hline.mpr hnewline))]
    exact refuse he halong ht (hno hphase)

/-- **Items are read one by one** up to the first token of another kind. -/
theorem items {k : Kind} {item : Walk α} {ds : Array Definition} {as : Array Assignment}
    (round : Round) (place : Array α → Phase)
    (hitem : ∀ (c : Cursor) (xs : Array α) (t : Token), Along ts e c ⟨ds, as, place xs⟩ →
      ts[c.current]? = some t → xs = #[] ∨ t.kind = k → Meets ts e item c ⟨ds, as, place xs⟩
        fun x i s => i = c.current + 1 ∧ s = ⟨ds, as, place (xs.push x)⟩)
    (halong : Along ts e c ⟨ds, as, place #[]⟩) :
    Meets ts e (items limit round k item) c ⟨ds, as, place #[]⟩ fun xs i s =>
      xs ≠ #[] ∧ s = ⟨ds, as, place xs⟩ ∧ ∀ t, ts[i]? = some t → t.kind ≠ k := by
  have hstep : ∀ (c : Cursor) (xs : Array α) (t : Token), Along ts e c ⟨ds, as, place xs⟩ →
      ts[c.current]? = some t → xs = #[] ∨ t.kind = k →
      Meets ts e (do return xs.push (← item)) c ⟨ds, as, place xs⟩ fun ys i s =>
        c.current < i ∧ ys ≠ #[] ∧ s = ⟨ds, as, place ys⟩ := by
    intro c xs t halong ht hxs
    apply bind (hitem c xs t halong ht hxs)
    rintro x c₁ _ - halong₁ ⟨hcurrent₁, rfl⟩
    exact ret halong₁ ⟨by omega, by simp, rfl⟩
  obtain ⟨t, ht⟩ := exists_token he halong.toTidy
  unfold Descent.items
  apply bind (turn round halong (hstep c #[] t halong ht (.inl rfl)) fun _ _ _ h => h.1)
  rintro xs c₁ _ - halong₁ ⟨-, hxs, rfl⟩
  refine loop (I := fun xs _ s => xs ≠ #[] ∧ s = ⟨ds, as, place xs⟩)
    (J := fun xs i s => s = ⟨ds, as, place xs⟩ ∧ ∃ t, ts[i]? = some t ∧ t.kind = k) round ?_ ?_
    halong₁ (by omega) ⟨hxs, rfl⟩
  · rintro xs c₂ _ halong₂ ⟨hxs, rfl⟩
    obtain ⟨u, hu⟩ := exists_token he halong₂.toTidy
    refine check he halong₂ hu _ (fun hk => ⟨rfl, u, hu, by simpa using hk⟩) fun hk => ⟨hxs, rfl, ?_⟩
    intro v hv
    obtain rfl : u = v := Option.some.inj (hu.symm.trans hv)
    simpa using hk
  · rintro xs c₂ _ halong₂ ⟨rfl, u, hu, hk⟩
    exact hstep c₂ xs u halong₂ hu (.inr hk)

end

end Meets
end Descent
end AssignLang
