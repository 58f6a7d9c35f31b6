/-
# Assignments that commute

Two assignments are independent if they have different targets and neither reads the
target of the other. In a row they have the same results in either order, values and
diagnostics alike, and leave the same scope; so whatever stands before them and after
them does not see the order (`Assignment.runEach_exchange`).

A run that stops at the first diagnostic may well stop at another one of the two when
they are exchanged. But then it stops in both orders, and a program that has a value
has it in both, with one exception: if the two are the last ones, the value of the
program is that of whichever comes last.

Key definitions: `Independent`.
Key theorems: `Assignment.run_exchange`, `Assignment.runEach_exchange`,
`Assignment.runAll_exchange`, `independent_commute`.
-/
import AssignLang.Proofs.Running.Sequence
import AssignLang.Proofs.Running.Variables

namespace AssignLang

/-- The assignments have different targets, and neither reads the target of the other. -/
structure Independent (a b : Assignment) : Prop where
  target_ne : a.target.text ≠ b.target.text
  not_reads_right : ¬ a.expr.Reads b.target.text
  not_reads_left : ¬ b.expr.Reads a.target.text

instance (a b : Assignment) : Decidable (Independent a b) :=
  decidable_of_iff (a.target.text ≠ b.target.text ∧ ¬ a.expr.Reads b.target.text ∧
      ¬ b.expr.Reads a.target.text)
    ⟨fun ⟨h, hr, hl⟩ => ⟨h, hr, hl⟩, fun ⟨h, hr, hl⟩ => ⟨h, hr, hl⟩⟩

theorem Independent.symm {a b : Assignment} (h : Independent a b) : Independent b a :=
  ⟨h.target_ne.symm, h.not_reads_left, h.not_reads_right⟩

/-! ### Two in a row -/

theorem Scope.declare_comm (s : Scope) {x y : String} (h : x ≠ y) (v w : Value) :
    (s.declare x v).declare y w = (s.declare y w).declare x v := by
  apply ext_lookup
  intro z
  by_cases hx : z = x
  · subst hx
    rw [lookup_declare_of_ne _ w h, lookup_declare_self, lookup_declare_self]
  · by_cases hy : z = y
    · subst hy
      rw [lookup_declare_self, lookup_declare_of_ne _ v hx, lookup_declare_self]
    · rw [lookup_declare_of_ne _ w hy, lookup_declare_of_ne _ v hx, lookup_declare_of_ne _ v hx,
        lookup_declare_of_ne _ w hy]

/-- An assignment changes nothing but its target. -/
theorem Assignment.lookup_run (a : Assignment) (s : Scope) {x : String} (hx : x ≠ a.target.text) :
    (a.run s).2.lookup x = s.lookup x := by
  cases he : a.expr.eval s with
  | error d => rw [run_of_error he]
  | ok v =>
    rw [run_of_ok he]
    exact s.lookup_declare_of_ne v hx

/-- An assignment that does not read the target of another one does not see it run. -/
theorem Expr.eval_run {e : Expr} {a : Assignment} (h : ¬ e.Reads a.target.text) (s : Scope) :
    e.eval (a.run s).2 = e.eval s := by
  apply e.eval_congr
  intro x hx
  have hne : x ≠ a.target.text := by
    rintro rfl
    exact h hx
  exact a.lookup_run s hne

namespace Assignment

variable {a b : Assignment}

/-- **Independent assignments in a row** have the same results in either order, and leave
the same scope. -/
theorem run_exchange (h : Independent a b) (s : Scope) :
    (b.run (a.run s).2).1 = (b.run s).1 ∧ (a.run (b.run s).2).1 = (a.run s).1 ∧
      (b.run (a.run s).2).2 = (a.run (b.run s).2).2 := by
  have hb : b.expr.eval (a.run s).2 = b.expr.eval s := Expr.eval_run h.not_reads_left s
  have ha : a.expr.eval (b.run s).2 = a.expr.eval s := Expr.eval_run h.not_reads_right s
  refine ⟨?_, ?_, ?_⟩
  · rw [run_fst, run_fst, hb]
  · rw [run_fst, run_fst, ha]
  · cases hx : a.expr.eval s with
    | error d => rw [run_of_error (ha.trans hx), run_of_error hx]
    | ok v =>
      cases hy : b.expr.eval s with
      | error d => rw [run_of_error (hb.trans hy), run_of_error hy]
      | ok w =>
        rw [run_of_ok (ha.trans hx), run_of_ok (hb.trans hy), run_of_ok hx, run_of_ok hy]
        exact s.declare_comm h.target_ne v w

/-! ### In a list -/

theorem runEach_exchange_front (h : Independent a b) (bs : List Assignment) (s : Scope) :
    ∃ x y after t, runEach (a :: b :: bs) s = (x :: y :: after, t) ∧
      runEach (b :: a :: bs) s = (y :: x :: after, t) := by
  obtain ⟨hb, ha, hscope⟩ := run_exchange h s
  have hfirst : runEach (a :: b :: bs) s = ((a.run s).1 :: (b.run s).1 ::
      (runEach bs (a.run (b.run s).2).2).1, (runEach bs (a.run (b.run s).2).2).2) := by
    rw [runEach, runEach, hb, hscope]
  have hsecond : runEach (b :: a :: bs) s = ((b.run s).1 :: (a.run s).1 ::
      (runEach bs (a.run (b.run s).2).2).1, (runEach bs (a.run (b.run s).2).2).2) := by
    rw [runEach, runEach, ha]
  exact ⟨_, _, _, _, hfirst, hsecond⟩

/-- **What stands around independent assignments does not see their order.** -/
theorem runEach_exchange (h : Independent a b) (as bs : List Assignment) (s : Scope) :
    ∃ before x y after t, before.length = as.length ∧ after.length = bs.length ∧
      runEach (as ++ a :: b :: bs) s = (before ++ x :: y :: after, t) ∧
      runEach (as ++ b :: a :: bs) s = (before ++ y :: x :: after, t) := by
  obtain ⟨x, y, after, t, hfirst, hsecond⟩ := runEach_exchange_front h bs (runEach as s).2
  have hlength := length_runEach (a :: b :: bs) (runEach as s).2
  rw [hfirst] at hlength
  refine ⟨(runEach as s).1, x, y, after, t, length_runEach as s, by simpa using hlength, ?_, ?_⟩
  · rw [runEach_append, hfirst]
  · rw [runEach_append, hsecond]

/-- **A run that has a value has one with independent assignments exchanged**: it has the
values of the other order, and leaves the same scope. -/
theorem runAll_exchange (h : Independent a b) {last v : Value} {as bs : List Assignment}
    {s t : Scope} (hrun : runAll last (as ++ a :: b :: bs) s = (.ok v, t)) :
    ∃ (before : List Value) (x y : Value) (after : List Value),
      before.length = as.length ∧ after.length = bs.length ∧
      runEach (as ++ a :: b :: bs) s = ((before ++ x :: y :: after).map .ok, t) ∧
      runEach (as ++ b :: a :: bs) s = ((before ++ y :: x :: after).map .ok, t) ∧
      v = (before ++ x :: y :: after).getLastD last ∧
      runAll last (as ++ b :: a :: bs) s = (.ok ((before ++ y :: x :: after).getLastD last), t) := by
  obtain ⟨vs, hvs, rfl⟩ := runAll_eq_ok_iff.mp hrun
  obtain ⟨before, x, y, after, t', hbefore, hafter, hfirst, hsecond⟩ := runEach_exchange h as bs s
  rw [hfirst] at hvs
  obtain ⟨hresults, rfl⟩ := Prod.mk.inj hvs
  -- all results are values
  obtain ⟨before, rest, rfl, rfl, hrest⟩ := List.map_eq_append_iff.mp hresults.symm
  obtain ⟨x, rest', rfl, rfl, hrest'⟩ := List.map_eq_cons_iff.mp hrest
  obtain ⟨y, after, rfl, rfl, rfl⟩ := List.map_eq_cons_iff.mp hrest'
  rw [List.length_map] at hbefore hafter
  have hexchanged : runEach (as ++ b :: a :: bs) s =
      ((before ++ y :: x :: after).map .ok, t') := by
    rw [hsecond, List.map_append, List.map_cons, List.map_cons]
  refine ⟨before, x, y, after, hbefore, hafter, ?_, hexchanged, rfl, ?_⟩
  · rw [hfirst, List.map_append, List.map_cons, List.map_cons]
  · exact runAll_eq_ok_iff.mpr ⟨_, hexchanged, rfl⟩

theorem exists_ok_of_exchange (h : Independent a b) {last : Value} {as bs : List Assignment}
    {s : Scope} (hrun : ∃ v, (runAll last (as ++ a :: b :: bs) s).1 = .ok v) :
    ∃ w, (runAll last (as ++ b :: a :: bs) s).1 = .ok w := by
  obtain ⟨v, hv⟩ := hrun
  obtain ⟨before, x, y, after, -, -, -, -, -, hexchanged⟩ := runAll_exchange h (Prod.ext hv rfl)
  exact ⟨_, congrArg Prod.fst hexchanged⟩

end Assignment

/-! ### In a program -/

/-- The last element does not depend on what stands before it. -/
theorem getLastD_append_cons_cons {α : Type} (before : List α) (x y z : α) {after : List α}
    (h : after ≠ []) : (before ++ x :: y :: after).getLastD z = after.getLast h := by
  rw [List.getLastD_eq_getLast?, List.getLast?_append, List.getLast?_cons_cons,
    List.getLast?_cons_of_ne_nil h, List.getLast?_eq_some_getLast h]
  rfl

/-- **Independent assignments commute.** Of two programs that differ in the order of two
independent assignments in a row, both have a value or neither has one. If they have
one, they leave the same scope, every assignment has the same value in both, and the
programs have the same value; but if the two assignments are the last ones, each
program has the value of the one that is last in it. -/
theorem independent_commute {p q : Program} {as bs : List Assignment} {a b : Assignment}
    (hp : p.assignments = as ++ a :: b :: bs) (hq : q.assignments = as ++ b :: a :: bs)
    (h : Independent a b) (s : Scope) :
    ((∃ v, (p.run s).1 = .ok v) ↔ ∃ w, (q.run s).1 = .ok w) ∧
    ∀ v w, (p.run s).1 = .ok v ∧ (q.run s).1 = .ok w →
      (p.run s).2 = (q.run s).2 ∧
      ∃ (before : List Value) (x y : Value) (after : List Value),
        before.length = as.length ∧ after.length = bs.length ∧
        Assignment.runEach p.assignments s = ((before ++ x :: y :: after).map .ok, (p.run s).2) ∧
        Assignment.runEach q.assignments s = ((before ++ y :: x :: after).map .ok, (q.run s).2) ∧
        (bs ≠ [] → v = w) ∧ (bs = [] → v = y ∧ w = x) := by
  have hpRun : p.run s = Assignment.runAll .null (as ++ a :: b :: bs) s := by
    rw [Program.run, hp]
  have hqRun : q.run s = Assignment.runAll .null (as ++ b :: a :: bs) s := by
    rw [Program.run, hq]
  rw [hpRun, hqRun, hp, hq]
  refine ⟨⟨?_, ?_⟩, ?_⟩
  · exact Assignment.exists_ok_of_exchange h
  · exact Assignment.exists_ok_of_exchange h.symm
  · rintro v w ⟨hv, hw⟩
    obtain ⟨before, x, y, after, hbefore, hafter, hfirst, hsecond, rfl, hexchanged⟩ :=
      Assignment.runAll_exchange h (Prod.ext hv rfl)
    rw [hexchanged] at hw ⊢
    obtain rfl := Except.ok.inj hw
    refine ⟨rfl, before, x, y, after, hbefore, hafter, hfirst, hsecond, ?_, ?_⟩
    · intro hbs
      have hafter' : after ≠ [] := by
        rintro rfl
        exact hbs (List.length_eq_zero_iff.mp hafter.symm)
      rw [getLastD_append_cons_cons before x y _ hafter',
        getLastD_append_cons_cons before y x _ hafter']
    · rintro rfl
      obtain rfl : after = [] := List.length_eq_zero_iff.mp hafter
      exact ⟨by simp, by simp⟩

/-- Null copied by two assignments in the middle of a program. -/
theorem independent_commute_copies :
    let copy (target source : String) : Assignment :=
      ⟨none, .sample .identifier target, .name (.sample .identifier source)⟩
    let p : Program := ⟨[], [copy "v" "u", copy "x" "v", copy "y" "u", copy "z" "x"]⟩
    let q : Program := ⟨[], [copy "v" "u", copy "y" "u", copy "x" "v", copy "z" "x"]⟩
    let s : Scope := Scope.empty.declare "u" .null
    Independent (copy "x" "v") (copy "y" "u") ∧ ∃ v, (p.run s).1 = .ok v ∧
      (q.run s).1 = .ok v ∧ (p.run s).2 = (q.run s).2 := by
  intro copy p q s
  have h : Independent (copy "x" "v") (copy "y" "u") := by decide
  have hp : p.assignments = [copy "v" "u"] ++ copy "x" "v" :: copy "y" "u" :: [copy "z" "x"] := rfl
  have hq : q.assignments = [copy "v" "u"] ++ copy "y" "u" :: copy "x" "v" :: [copy "z" "x"] := rfl
  obtain ⟨hboth, hsame⟩ := independent_commute hp hq h s
  have hok : (p.run s).1.toOption.isSome = true := by decide
  obtain ⟨v, hv⟩ : ∃ v, (p.run s).1 = .ok v := by
    cases hr : (p.run s).1 with
    | ok v => exact ⟨v, rfl⟩
    | error d =>
      rw [hr] at hok
      cases hok
  obtain ⟨w, hw⟩ := hboth.mp ⟨v, hv⟩
  obtain ⟨hscope, -, -, -, -, -, -, -, -, hvalue, -⟩ := hsame v w ⟨hv, hw⟩
  exact ⟨h, v, hv, hvalue (List.cons_ne_nil _ _) ▸ hw, hscope⟩

end AssignLang
