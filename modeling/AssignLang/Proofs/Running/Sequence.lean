/-
# Assignments one after the other

A run of a list of assignments splits at any place: what comes after it is run in the
scope that what comes before it left (`Assignment.runAll_append`).

Assignments can also be run with the run going on after a diagnostic. Each of them then
has a result of its own, and one without a value leaves the scope as it was. So the
others do what they do when they are run alone: the assignments that had a value are a
program that has a value, with every one of its assignments having the value it had
before, and it leaves the same scope.

Key definitions: `Assignment.runEach`, `Assignment.succeeding`.
Key theorems: `Assignment.runAll_append`, `Assignment.runEach_append`,
`Assignment.runAll_eq_ok_iff`, `Assignment.runEach_succeeding`,
`failures_leave_no_trace`.
-/
import AssignLang.Program.Run

namespace AssignLang
namespace Assignment

/-! ### Up to the first diagnostic -/

/-- A run goes on in the scope that the assignments before it left, if they have a
value. -/
theorem runAll_append (bs : List Assignment) : ∀ (last : Value) (as : List Assignment)
    (s : Scope), runAll last (as ++ bs) s =
      match runAll last as s with
      | (.ok v, s') => runAll v bs s'
      | (.error d, s') => (.error d, s')
  | _, [], _ => rfl
  | last, a :: as, s => by
    rw [List.cons_append, runAll, runAll]
    rcases a.run s with ⟨d | v, s'⟩
    · rfl
    · exact runAll_append bs v as s'

/-- The value before the first assignment is the value of the run only if there is no
assignment. -/
theorem runAll_last (last : Value) (as : List Assignment) (s : Scope) :
    runAll last as s =
      match runAll .null as s with
      | (.ok v, s') => (.ok (if as.isEmpty then last else v), s')
      | (.error d, s') => (.error d, s') := by
  cases as with
  | nil => rfl
  | cons a as =>
    show runAll .null (a :: as) s = _
    rcases runAll .null (a :: as) s with ⟨d | v, s'⟩ <;> rfl

/-! ### Going on after a diagnostic -/

/-- Runs assignments in order and goes on after a diagnostic: all results, and the scope
at the end. -/
def runEach : List Assignment → Scope → List (Except Diagnostic Value) × Scope
  | [], s => ([], s)
  | a :: as, s =>
    let first := a.run s
    let rest := runEach as first.2
    (first.1 :: rest.1, rest.2)

theorem length_runEach : ∀ (as : List Assignment) (s : Scope),
    (runEach as s).1.length = as.length
  | [], _ => rfl
  | a :: as, s => congrArg (· + 1) (length_runEach as (a.run s).2)

theorem runEach_append (bs : List Assignment) : ∀ (as : List Assignment) (s : Scope),
    runEach (as ++ bs) s =
      ((runEach as s).1 ++ (runEach bs (runEach as s).2).1, (runEach bs (runEach as s).2).2)
  | [], _ => rfl
  | a :: as, s => by
    rw [List.cons_append, runEach, runEach_append bs as]
    rfl

section
variable {a : Assignment} {s : Scope}

theorem run_of_ok {v : Value} (h : a.expr.eval s = .ok v) :
    a.run s = (.ok v, s.declare a.target.text v) := by
  rw [run, h]

/-- An assignment that has no value leaves the scope as it was. -/
theorem run_of_error {d : Diagnostic} (h : a.expr.eval s = .error d) : a.run s = (.error d, s) := by
  rw [run, h]

theorem run_fst (a : Assignment) (s : Scope) : (a.run s).1 = a.expr.eval s := by
  unfold run
  cases a.expr.eval s <;> rfl

end

section
variable {a : Assignment} {as : List Assignment} {s t : Scope}

theorem runAll_cons_eq_ok_iff {last v : Value} : runAll last (a :: as) s = (.ok v, t) ↔
    ∃ w, a.expr.eval s = .ok w ∧ runAll w as (s.declare a.target.text w) = (.ok v, t) := by
  rw [runAll]
  cases he : a.expr.eval s with
  | error d => simp [run_of_error he]
  | ok w => simp [run_of_ok he]

/-- All assignments have a value if the first has one and all others in the scope that
binds it. -/
theorem runEach_cons_eq_ok_iff {vs : List Value} : runEach (a :: as) s = (vs.map .ok, t) ↔
    ∃ w ws, vs = w :: ws ∧ a.expr.eval s = .ok w ∧
      runEach as (s.declare a.target.text w) = (ws.map .ok, t) := by
  constructor
  · intro h
    obtain ⟨hresults, hscope⟩ := Prod.mk.inj h
    obtain ⟨w, ws, rfl, hw, hws⟩ := List.map_eq_cons_iff.mp hresults.symm
    have he : a.expr.eval s = .ok w := (run_fst a s).symm.trans hw.symm
    rw [run_of_ok he] at hws hscope
    exact ⟨w, ws, rfl, he, Prod.ext hws.symm hscope⟩
  · rintro ⟨w, ws, rfl, he, hrest⟩
    rw [runEach, run_of_ok he, hrest]
    rfl

end

/-- **A run that stops at no diagnostic** is one in which every assignment has a value,
and the last one is the result. -/
theorem runAll_eq_ok_iff {v : Value} {t : Scope} : ∀ {last : Value} {as : List Assignment}
    {s : Scope}, runAll last as s = (.ok v, t) ↔
      ∃ vs : List Value, runEach as s = (vs.map .ok, t) ∧ vs.getLastD last = v
  | last, [], s => by
    constructor
    · intro h
      obtain ⟨hv, rfl⟩ := Prod.mk.inj h
      exact ⟨[], rfl, Except.ok.inj hv⟩
    · rintro ⟨vs, hrun, rfl⟩
      obtain ⟨hvs, rfl⟩ := Prod.mk.inj hrun
      obtain rfl : vs = [] := List.map_eq_nil_iff.mp hvs.symm
      rfl
  | last, a :: as, s => by
    rw [runAll_cons_eq_ok_iff]
    constructor
    · rintro ⟨w, he, hrun⟩
      obtain ⟨ws, hws, hlast⟩ := runAll_eq_ok_iff.mp hrun
      refine ⟨w :: ws, runEach_cons_eq_ok_iff.mpr ⟨w, ws, rfl, he, hws⟩, ?_⟩
      rw [List.getLastD_cons, hlast]
    · rintro ⟨vs, hrun, hlast⟩
      obtain ⟨w, ws, rfl, he, hws⟩ := runEach_cons_eq_ok_iff.mp hrun
      rw [List.getLastD_cons] at hlast
      exact ⟨w, he, runAll_eq_ok_iff.mpr ⟨ws, hws, hlast⟩⟩

/-! ### The assignments that have a value -/

/-- The assignments that have a value when the run goes on after a diagnostic. -/
def succeeding (as : List Assignment) (s : Scope) : List Assignment :=
  ((as.zip (runEach as s).1).filter fun z => z.2.isOk).map Prod.fst

section
variable {a : Assignment} {as : List Assignment} {s t : Scope}

theorem succeeding_sublist (as : List Assignment) (s : Scope) : (succeeding as s).Sublist as := by
  have hfst : (as.zip (runEach as s).1).map Prod.fst = as :=
    List.map_fst_zip (Nat.le_of_eq (length_runEach as s).symm)
  have hfilter := (List.filter_sublist (p := fun z => z.2.isOk)
    (l := as.zip (runEach as s).1)).map Prod.fst
  rwa [hfst] at hfilter

theorem succeeding_cons_of_ok {v : Value} (h : a.run s = (.ok v, t)) :
    succeeding (a :: as) s = a :: succeeding as t := by
  rw [succeeding, runEach, h]
  rfl

theorem succeeding_cons_of_error {d : Diagnostic} (h : a.run s = (.error d, t)) :
    succeeding (a :: as) s = succeeding as t := by
  rw [succeeding, runEach, h]
  rfl

end

/-- **The assignments that had a value have it again without the others**, and they
leave the same scope. -/
theorem runEach_succeeding : ∀ (as : List Assignment) (s : Scope), ∃ vs : List Value,
    runEach (succeeding as s) s = (vs.map .ok, (runEach as s).2) ∧
      (succeeding as s).zip (vs.map .ok) = (as.zip (runEach as s).1).filter fun z => z.2.isOk
  | [], s => ⟨[], rfl, rfl⟩
  | a :: as, s => by
    cases he : a.expr.eval s with
    | error d =>
      -- the other assignments see the scope that was there before `a`
      have ha := run_of_error he
      obtain ⟨vs, hrun, hzip⟩ := runEach_succeeding as s
      refine ⟨vs, ?_, ?_⟩
      · rw [succeeding_cons_of_error ha, hrun, runEach, ha]
      · rw [succeeding_cons_of_error ha, hzip, runEach, ha]
        rfl
    | ok v =>
      have ha := run_of_ok he
      obtain ⟨vs, hrun, hzip⟩ := runEach_succeeding as (s.declare a.target.text v)
      refine ⟨v :: vs, ?_, ?_⟩
      · rw [succeeding_cons_of_ok ha, runEach, runEach, ha, hrun]
        rfl
      · rw [succeeding_cons_of_ok ha, runEach, ha, List.map_cons, List.zip_cons_cons, hzip]
        rfl

end Assignment

open Assignment in
/-- **Assignments that fail leave no trace.** Run assignments in order, going on after
every diagnostic. Those that have a value are a program that has a value in the same
scope; each of its assignments has the value it had before, the last of these is the
value of the program, and the scope at the end is the same. -/
theorem failures_leave_no_trace (as : List Assignment) (s : Scope) :
    (succeeding as s).Sublist as ∧ ∃ values : List Value,
      runEach (succeeding as s) s = (values.map .ok, (runEach as s).2) ∧
      (succeeding as s).zip (values.map .ok) =
        ((as.zip (runEach as s).1).filter fun z => z.2.isOk) ∧
      ∀ definitions, Program.run ⟨definitions, succeeding as s⟩ s =
        (.ok (values.getLastD .null), (runEach as s).2) := by
  obtain ⟨values, hrun, hzip⟩ := runEach_succeeding as s
  refine ⟨succeeding_sublist as s, values, hrun, hzip, fun definitions => ?_⟩
  exact runAll_eq_ok_iff.mpr ⟨values, hrun, rfl⟩

/-- The second assignment reads a name that is bound only after it. -/
example :
    let token (text : String) : Token := ⟨.identifier, text, .empty 0, .start, false⟩
    let copy (target source : String) : Assignment := ⟨none, token target, .name (token source)⟩
    (Assignment.succeeding [copy "x" "z", copy "z" "y", copy "y" "x"]
      (Scope.empty.declare "z" .null)).map (fun a => a.target.text) = ["x", "y"] := by
  decide

end AssignLang
