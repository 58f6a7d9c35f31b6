/-
# What a run does to the scope

A run takes the assignments in order. Up to the first one that has no value, each
of them binds its target and nothing else; the run ends there, or after the last
of them, and keeps the scope it came to. So nothing is bound of an assignment
that fails, everything before it stays bound, and a name that no assignment
before it has for a target keeps the value it had.

A text that is no program runs no assignment.

Key definitions: `Scope.Binds`, `Progress`, `Ending`, `Effect`.
Key theorems: `Assignment.exists_progress`, `Progress.contains_iff`,
`Progress.lookup_of_not_target`, `compileWith_effect`.
-/
import AssignLang.Compile

namespace AssignLang

/-- The scope `t` has `name` bound to `v`, and every other name as `s` has it. -/
def Scope.Binds (s : Scope) (name : String) (v : Value) (t : Scope) : Prop :=
  t.lookup name = some v ∧ ∀ x, x ≠ name → t.lookup x = s.lookup x

theorem Scope.binds_declare (s : Scope) (name : String) (v : Value) :
    s.Binds name v (s.declare name v) :=
  ⟨s.lookup_declare_self name v, fun _ hx => s.lookup_declare_of_ne v hx⟩

/-- There is one such scope. -/
theorem Scope.Binds.eq_declare {s t : Scope} {name : String} {v : Value}
    (h : s.Binds name v t) : t = s.declare name v := by
  apply ext_lookup
  intro x
  rw [lookup_declare]
  split
  · next hx => exact hx ▸ h.1
  · next hx => exact h.2 x hx

/-- The first `n` assignments have their effect one after the other: in scope
number `i` the right side of assignment number `i` has value number `i`, and
binding its target to this value gives the next scope. -/
structure Progress (as : List Assignment) (n : Nat) (scopes : Nat → Scope) (values : Nat → Value) :
    Prop where
  eval : ∀ i a, i < n ∧ as[i]? = some a → a.expr.eval (scopes i) = .ok (values i)
  binds : ∀ i a, i < n ∧ as[i]? = some a →
    (scopes i).Binds a.target.text (values i) (scopes (i + 1))

/-- The value of the last of the first `n` assignments; `before` if there are
none. -/
def lastValue (before : Value) (values : Nat → Value) : Nat → Value
  | 0 => before
  | n + 1 => values n

/-- How a run ends that comes to the scope `t` after the first `n` assignments. -/
inductive Ending (as : List Assignment) (n : Nat) (t : Scope) (last : Value) :
    Except Diagnostic Value → Prop
  /-- All assignments have a value, and the last one's is the result. -/
  | finished (h : n = as.length) : Ending as n t last (.ok last)
  /-- The next assignment has none, and its diagnostic is the result. -/
  | stopped {a d} (ha : as[n]? = some a) (hd : a.expr.eval t = .error d) :
    Ending as n t last (.error d)

/-- A run that does not finish stops at the next assignment. -/
theorem Ending.stopped_of_getElem? {as : List Assignment} {n : Nat} {t : Scope} {last : Value}
    {r : Except Diagnostic Value} (h : Ending as n t last r) {a : Assignment}
    (ha : as[n]? = some a) : ∃ d, a.expr.eval t = .error d ∧ r = .error d := by
  cases h with
  | finished hn =>
    rw [hn, List.getElem?_eq_none (Nat.le_refl _)] at ha
    cases ha
  | stopped hb hd =>
    obtain rfl : _ = a := Option.some.inj (hb.symm.trans ha)
    exact ⟨_, hd, rfl⟩

/-! ### One assignment after the other -/

theorem Progress.zero (as : List Assignment) (scopes : Nat → Scope) (values : Nat → Value) :
    Progress as 0 scopes values :=
  ⟨fun i _ hi => absurd hi.1 (Nat.not_lt_zero i), fun i _ hi => absurd hi.1 (Nat.not_lt_zero i)⟩

/-- One assignment more at the front. -/
theorem Progress.cons {as : List Assignment} {n : Nat} {scopes : Nat → Scope}
    {values : Nat → Value} (h : Progress as n scopes values) {a : Assignment} {s : Scope}
    {v : Value} (ha : a.expr.eval s = .ok v) (hs : s.Binds a.target.text v (scopes 0)) :
    Progress (a :: as) (n + 1) (fun | 0 => s | i + 1 => scopes i)
      (fun | 0 => v | i + 1 => values i) := by
  constructor
  · intro i b hi
    cases i with
    | zero =>
      obtain rfl : a = b := by simpa using hi.2
      exact ha
    | succ i => exact h.eval i b (by simpa using hi)
  · intro i b hi
    cases i with
    | zero =>
      obtain rfl : a = b := by simpa using hi.2
      exact hs
    | succ i => exact h.binds i b (by simpa using hi)

theorem Ending.cons {as : List Assignment} {n : Nat} {t : Scope} {last : Value}
    {r : Except Diagnostic Value} (h : Ending as n t last r) (a : Assignment) :
    Ending (a :: as) (n + 1) t last r := by
  cases h with
  | finished h => exact .finished (congrArg (· + 1) h)
  | stopped ha hd => exact .stopped (by simpa using ha) hd

/-- **A run goes on from scope to scope up to its end.** -/
theorem Assignment.exists_progress (before : Value) : ∀ (as : List Assignment) (s : Scope),
    ∃ n scopes values, n ≤ as.length ∧ scopes 0 = s ∧ Progress as n scopes values ∧
      (runAll before as s).2 = scopes n ∧
      Ending as n (scopes n) (lastValue before values n) (runAll before as s).1
  | [], s =>
    ⟨0, fun _ => s, fun _ => before, Nat.le_refl 0, rfl, .zero .., rfl, .finished rfl⟩
  | a :: as, s => by
    cases he : a.expr.eval s with
    | ok v =>
      have hrun : runAll before (a :: as) s = runAll v as (s.declare a.target.text v) := by
        rw [runAll, run, he]
      obtain ⟨n, scopes, values, hn, hfirst, hprogress, hlast, hending⟩ :=
        exists_progress v as (s.declare a.target.text v)
      have hvalue : lastValue before (fun | 0 => v | i + 1 => values i) (n + 1) =
          lastValue v values n := by cases n <;> rfl
      rw [hrun]
      refine ⟨n + 1, _, _, Nat.succ_le_succ hn, rfl, hprogress.cons he ?_, hlast, ?_⟩
      · rw [hfirst]
        exact s.binds_declare a.target.text v
      · rw [hvalue]
        exact hending.cons a
    | error d =>
      have hrun : runAll before (a :: as) s = (.error d, s) := by
        rw [runAll, run, he]
      rw [hrun]
      exact ⟨0, fun _ => s, fun _ => before, Nat.zero_le _, rfl, .zero .., rfl, .stopped rfl he⟩

/-! ### What stays and what is bound -/

section
variable {as : List Assignment} {n : Nat} {scopes : Nat → Scope} {values : Nat → Value}

/-- A run up to an earlier assignment. -/
theorem Progress.of_lt (h : Progress as n scopes values) {m : Nat} (hm : m < n) :
    Progress as m scopes values :=
  ⟨fun i a hi => h.eval i a ⟨by omega, hi.2⟩, fun i a hi => h.binds i a ⟨by omega, hi.2⟩⟩

theorem Progress.of_succ (h : Progress as (n + 1) scopes values) : Progress as n scopes values :=
  h.of_lt (Nat.lt_succ_self n)

/-- A name that is no target keeps its value. -/
theorem Progress.lookup_of_not_target {x : String} (h : Progress as n scopes values)
    (hn : n ≤ as.length) (hx : ∀ a ∈ as.take n, a.target.text ≠ x) :
    (scopes n).lookup x = (scopes 0).lookup x := by
  induction n with
  | zero => rfl
  | succ n ih =>
    have hget : as[n]? = some as[n] := List.getElem?_eq_getElem (by omega)
    rw [List.take_add_one, hget, Option.toList_some, List.forall_mem_append,
      List.forall_mem_singleton] at hx
    have hstep := (h.binds n as[n] ⟨Nat.lt_succ_self n, hget⟩).2 x (Ne.symm hx.2)
    rw [hstep]
    exact ih h.of_succ (by omega) hx.1

/-- The names bound are those that were bound, and the targets. -/
theorem Progress.contains_iff {x : String} (h : Progress as n scopes values) (hn : n ≤ as.length) :
    (scopes n).contains x = true ↔
      (scopes 0).contains x = true ∨ ∃ a ∈ as.take n, a.target.text = x := by
  induction n with
  | zero => simp
  | succ n ih =>
    have hget : as[n]? = some as[n] := List.getElem?_eq_getElem (by omega)
    obtain ⟨hself, hother⟩ := h.binds n as[n] ⟨Nat.lt_succ_self n, hget⟩
    have htargets : (∃ a ∈ as.take (n + 1), a.target.text = x) ↔
        (∃ a ∈ as.take n, a.target.text = x) ∨ as[n].target.text = x := by
      simp only [List.take_add_one, hget, Option.toList_some, List.mem_append, List.mem_singleton,
        or_and_right, exists_or, exists_eq_left]
    rw [htargets]
    by_cases hx : as[n].target.text = x
    · have hbound : (scopes (n + 1)).contains x = true := by
        rw [Scope.contains, ← hx, hself]
        rfl
      exact iff_of_true hbound (.inr (.inr hx))
    · have hstep : (scopes (n + 1)).contains x = (scopes n).contains x := by
        rw [Scope.contains, Scope.contains, hother x (Ne.symm hx)]
      rw [hstep, ih h.of_succ (by omega), or_iff_left hx]

/-- The last target is bound to the last value. -/
theorem Progress.lookup_last (h : Progress as n scopes values) (hn : n = as.length)
    (before : Value) {a : Assignment} (ha : as.getLast? = some a) :
    (scopes n).lookup a.target.text = some (lastValue before values n) := by
  cases n with
  | zero =>
    obtain rfl : as = [] := List.length_eq_zero_iff.mp hn.symm
    cases ha
  | succ n =>
    have hget : as[n]? = some a := by
      rw [← ha, List.getLast?_eq_getElem?, ← hn]
      rfl
    exact (h.binds n a ⟨Nat.lt_succ_self n, hget⟩).1

end

/-! ### The whole text -/

/-- What the assignments `as` do that are run in the scope `s`: the first `n` of
them have their effect, and the run ends in the scope after them. -/
structure Effect (as : List Assignment) (s : Scope) (run : Except Diagnostic Value × Scope)
    (n : Nat) (scopes : Nat → Scope) (values : Nat → Value) : Prop where
  le_length : n ≤ as.length
  first : scopes 0 = s
  progress : Progress as n scopes values
  final : run.2 = scopes n
  ending : Ending as n run.2 (lastValue .null values n) run.1
  /-- The result is what the last target is bound to. -/
  lookup_last : ∀ v a, run.1 = .ok v ∧ as.getLast? = some a →
    run.2.lookup a.target.text = some v
  /-- A run of no assignments does nothing. -/
  of_nil : as = [] → run = (.ok .null, s)
  contains_iff : ∀ x, run.2.contains x = true ↔
    s.contains x = true ∨ ∃ a ∈ as.take n, a.target.text = x
  lookup_eq : ∀ x, (∀ a ∈ as.take n, a.target.text ≠ x) → run.2.lookup x = s.lookup x

theorem Assignment.exists_effect (as : List Assignment) (s : Scope) :
    ∃ n scopes values, Effect as s (runAll .null as s) n scopes values := by
  obtain ⟨n, scopes, values, hn, hfirst, hprogress, hfinal, hending⟩ := exists_progress .null as s
  refine ⟨n, scopes, values, hn, hfirst, hprogress, hfinal, hfinal ▸ hending, ?_, ?_, ?_, ?_⟩
  · rintro v a ⟨hv, ha⟩
    rw [hv] at hending
    cases hending with
    | finished hlen =>
      rw [hfinal]
      exact hprogress.lookup_last hlen .null ha
  · rintro rfl
    rfl
  · intro x
    rw [hfinal, ← hfirst]
    exact hprogress.contains_iff hn
  · intro x hx
    rw [hfinal, ← hfirst]
    exact hprogress.lookup_of_not_target hn hx

/-- **What compiling a text does to a scope.** A text that has no tokens, or
whose tokens are no program, leaves the scope as it was; the assignments of a
program have their effect in order, up to the first one that fails. -/
theorem compileWith_effect (source : String) (s : Scope) :
    (∀ d, tokenize source = .error d → compileWith source s = (.error d, s)) ∧
    (∀ ts d, tokenize source = .ok ts ∧ parse ts = .error d →
      compileWith source s = (.error d, s)) ∧
    ∀ ts p, tokenize source = .ok ts ∧ parse ts = .ok p →
      ∃ n scopes values, Effect p.assignments s (compileWith source s) n scopes values := by
  refine ⟨?_, ?_, ?_⟩
  · intro d hd
    exact compileWith_of_error (readProgram_of_error hd) s
  · rintro ts d ⟨hts, hd⟩
    exact compileWith_of_error ((readProgram_of_ok hts).trans hd) s
  · rintro ts p ⟨hts, hp⟩
    rw [compileWith_of_ok ((readProgram_of_ok hts).trans hp)]
    exact Assignment.exists_effect p.assignments s

/-- The first assignment binds `x`, and the second one fails. -/
theorem compileWith_effect_stopped :
    ∃ ts p n scopes values,
      (tokenize "begin\nx = y\nz = w\nend" = .ok ts ∧ parse ts = .ok p) ∧
      Effect p.assignments (Scope.empty.declare "y" .null)
        (compileWith "begin\nx = y\nz = w\nend" (Scope.empty.declare "y" .null)) n scopes values := by
  obtain ⟨ts, p, hp, -⟩ :=
    exists_of_any_readProgram "begin\nx = y\nz = w\nend" (fun _ => true) (by decide +kernel)
  obtain ⟨n, scopes, values, heffect⟩ :=
    (compileWith_effect "begin\nx = y\nz = w\nend" (Scope.empty.declare "y" .null)).2.2 ts p hp
  exact ⟨ts, p, n, scopes, values, hp, heffect⟩

end AssignLang
