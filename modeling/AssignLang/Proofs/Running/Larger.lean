/-
# Running in a larger scope

A run that never misses a name reads only names that its scope binds or that it
bound itself. So it goes the same way in every scope that has these bindings and
more: it gives the same result, and what it leaves is the larger scope with the
bindings of the smaller run written over it (`Assignment.runAll_overwrite`).

A program that has a value in a scope that binds nothing has it in every scope,
and running it again in what it left changes nothing.

Key definitions: `Scope.Within`, `Scope.overwrite`, `MissesName`,
`Scope.repeatedly`.
Key theorems: `Scope.lookup_overwrite`, `Expr.eval_of_within`,
`Assignment.runAll_overwrite`, `run_in_larger_scope`.
-/
import AssignLang.Compile

namespace AssignLang
namespace Scope

/-- Every binding of `s` is one of `t`. -/
def Within (s t : Scope) : Prop := ∀ name v, s.lookup name = some v → t.lookup name = some v

/-- The scope `t` with all bindings of `s` declared in it. -/
def overwrite (t s : Scope) : Scope := s.bindings.foldl (fun u b => u.declare b.1 b.2) t

/-- The bindings increase, so a name is declared once and keeps what it was
declared to be. -/
theorem lookup_foldl_declare (x : String) : ∀ {bs : List Binding} (t : Scope), Increasing bs →
    (bs.foldl (fun u b => u.declare b.1 b.2) t).lookup x = (bs.lookup x).or (t.lookup x)
  | [], _, _ => rfl
  | (name, v) :: bs, t, h => by
    obtain ⟨hlt, hbs⟩ := List.pairwise_cons.mp h
    rw [List.foldl_cons, lookup_foldl_declare x (t.declare name v) hbs]
    by_cases hx : x = name
    · subst hx
      rw [lookup_eq_none_of_lt hlt, List.lookup_cons_self, lookup_declare_self]
      rfl
    · rw [List.lookup_cons, beq_false_of_ne hx, lookup_declare_of_ne t v hx]

/-- A name has the value of the overwriting scope if it has one there. -/
theorem lookup_overwrite (t s : Scope) (x : String) :
    (t.overwrite s).lookup x = (s.lookup x).or (t.lookup x) :=
  lookup_foldl_declare x t s.increasing

/-- What overwrites a scope is within the outcome. -/
theorem within_overwrite (t s : Scope) : s.Within (t.overwrite s) := by
  intro x v hx
  rw [lookup_overwrite, hx]
  rfl

/-- Overwriting with bindings that are there changes nothing. -/
theorem overwrite_of_within {s t : Scope} (h : s.Within t) : t.overwrite s = t := by
  apply ext_lookup
  intro x
  rw [lookup_overwrite]
  cases hx : s.lookup x with
  | none => rfl
  | some v => exact (h x v hx).symm

theorem overwrite_declare (t s : Scope) (name : String) (v : Value) :
    t.overwrite (s.declare name v) = (t.overwrite s).declare name v := by
  apply ext_lookup
  intro x
  by_cases hx : x = name
  · subst hx
    rw [lookup_overwrite, lookup_declare_self, lookup_declare_self]
    rfl
  · rw [lookup_overwrite, lookup_declare_of_ne s v hx, lookup_declare_of_ne _ v hx,
      lookup_overwrite]

theorem within_refl (s : Scope) : s.Within s := fun _ _ h => h

theorem empty_within (t : Scope) : empty.Within t := by
  intro x v hx
  cases hx

end Scope

/-! ### Results that miss no name -/

/-- The result says that a variable has no value. -/
def MissesName {α : Type} (r : Except Diagnostic α) : Prop :=
  ∃ d name, r = .error d ∧ d.cause = .undefinedVariable name

theorem not_missesName_ok {α : Type} (a : α) : ¬ MissesName (.ok a) := by
  rintro ⟨d, name, hd, -⟩
  cases hd

/-- If a part of a computation misses a name, the whole does. -/
theorem MissesName.bind {α β : Type} {r : Except Diagnostic α} (h : MissesName r)
    (f : α → Except Diagnostic β) : MissesName (r >>= f) := by
  obtain ⟨d, name, rfl, hd⟩ := h
  exact ⟨d, name, rfl, hd⟩

/-! ### Expressions -/

theorem Scope.read_of_within {s t : Scope} (h : s.Within t) {token : Token}
    (hr : ¬ MissesName (s.read token)) : t.read token = s.read token := by
  unfold read at hr ⊢
  cases hx : s.lookup token.text with
  | some v => rw [h _ v hx]
  | none =>
    rw [hx] at hr
    exact absurd ⟨_, _, rfl, rfl⟩ hr

/-- **An expression that misses no name has the same result in a larger
scope.** -/
theorem Expr.eval_of_within {s t : Scope} (h : s.Within t) (e : Expr)
    (he : ¬ MissesName (e.eval s)) : e.eval t = e.eval s := by
  induction e with
  | integer l => rfl
  | real l => rfl
  | name token => exact Scope.read_of_within h he
  | negate token e ih =>
    have hoperand : ¬ MissesName (e.eval s) := fun hm => he (hm.bind _)
    rw [eval, eval, ih hoperand]
  | binary op token l r ihl ihr =>
    have hl : ¬ MissesName (l.eval s) := fun hm => he (hm.bind _)
    rw [eval, eval, ihl hl]
    cases hx : l.eval s with
    | error d => rfl
    | ok x =>
      have hr : ¬ MissesName (r.eval s) := by
        intro hm
        apply he
        rw [eval, hx]
        exact hm.bind _
      rw [ihr hr]

/-! ### Runs -/

/-- **A run that misses no name goes the same way over other bindings**, and what
it leaves is written over them. -/
theorem Assignment.runAll_overwrite (t : Scope) : ∀ {last : Value} {as : List Assignment}
    {s : Scope}, ¬ MissesName (runAll last as s).1 →
      runAll last as (t.overwrite s) = ((runAll last as s).1, t.overwrite (runAll last as s).2)
  | _, [], _, _ => rfl
  | last, a :: as, s, h => by
    have heval : ¬ MissesName (a.expr.eval s) → a.expr.eval (t.overwrite s) = a.expr.eval s :=
      Expr.eval_of_within (t.within_overwrite s) a.expr
    unfold runAll run at h ⊢
    cases he : a.expr.eval s with
    | ok v =>
      rw [he] at h heval
      rw [heval (not_missesName_ok v)]
      dsimp only at h ⊢
      rw [← Scope.overwrite_declare]
      exact runAll_overwrite t h
    | error d =>
      rw [he] at h heval
      rw [heval h]

theorem Program.run_of_within (p : Program) {s t : Scope} (h : s.Within t)
    (hr : ¬ MissesName (p.run s).1) : p.run t = ((p.run s).1, t.overwrite (p.run s).2) := by
  have hrun := Assignment.runAll_overwrite t hr
  rw [Scope.overwrite_of_within h] at hrun
  exact hrun

/-! ### From a scope that binds nothing -/

/-- A source text that has a value or divides by zero from nothing is a program,
and it misses no name. -/
theorem compileWith_of_compile {source : String}
    (h : (∃ v, compile source = .ok v) ∨
      ∃ d op, compile source = .error d ∧ d.cause = .divisionByZero op) (t : Scope) :
    (compileWith source t).1 = compile source := by
  have hmiss : ¬ MissesName (compile source) := by
    rintro ⟨d, name, hd, hcause⟩
    rcases h with ⟨v, hv⟩ | ⟨e, op, he, hop⟩
    · rw [hv] at hd
      cases hd
    · rw [he] at hd
      obtain rfl := Except.error.inj hd
      rw [hop] at hcause
      cases hcause
  unfold compile at hmiss ⊢
  cases hp : readProgram source with
  | error d => rw [compileWith_of_error hp, compileWith_of_error hp]
  | ok p =>
    rw [compileWith_of_ok hp] at hmiss ⊢
    rw [compileWith_of_ok hp, p.run_of_within t.empty_within hmiss]

/-- Acts `k` times on a scope, each time on what the time before left: all
results, and the scope at the end. -/
def Scope.repeatedly (act : Scope → Except Diagnostic Value × Scope) :
    Nat → Scope → List (Except Diagnostic Value) × Scope
  | 0, s => ([], s)
  | k + 1, s =>
    let first := act s
    let rest := repeatedly act k first.2
    (first.1 :: rest.1, rest.2)

theorem Scope.repeatedly_of_fixed {act : Scope → Except Diagnostic Value × Scope}
    {r : Except Diagnostic Value} {s : Scope} (h : act s = (r, s)) :
    ∀ k, repeatedly act k s = (List.replicate k r, s)
  | 0 => rfl
  | k + 1 => by rw [repeatedly, h, repeatedly_of_fixed h k, List.replicate_succ]

/-- What a program left from nothing is left by running it again. -/
theorem Program.run_again {p : Program} {v : Value} {s : Scope}
    (h : p.run .empty = (.ok v, s)) : p.run s = (.ok v, s) := by
  have hmiss : ¬ MissesName (p.run .empty).1 := by
    rw [h]
    exact not_missesName_ok v
  rw [p.run_of_within s.empty_within hmiss, h, Scope.overwrite_of_within s.within_refl]

theorem Program.repeatedly_run {p : Program} {v : Value} {s : Scope}
    (h : p.run .empty = (.ok v, s)) (k : Nat) :
    Scope.repeatedly p.run (k + 1) .empty = (List.replicate (k + 1) (.ok v), s) := by
  rw [Scope.repeatedly, h, Scope.repeatedly_of_fixed (run_again h), List.replicate_succ]

/-- **Running in a larger scope changes nothing but what is left over.** A run
that misses no name has the same result in every larger scope, and its bindings
are written over those of the larger scope. So a source text that has a value, or
divides by zero, from nothing does so in every scope; and a program that has a
value from nothing has it however often it is run in a row, and always leaves the
same scope. -/
theorem run_in_larger_scope :
    (∀ (p : Program) (s t : Scope), s.Within t → ¬ MissesName (p.run s).1 →
      p.run t = ((p.run s).1, t.overwrite (p.run s).2)) ∧
    (∀ source : String, ((∃ v, compile source = .ok v) ∨
        ∃ d op, compile source = .error d ∧ d.cause = .divisionByZero op) →
      ∀ t, (compileWith source t).1 = compile source) ∧
    ∀ (p : Program) (v : Value) (s : Scope), p.run .empty = (.ok v, s) →
      ∀ k, Scope.repeatedly p.run (k + 1) .empty = (List.replicate (k + 1) (.ok v), s) := by
  refine ⟨?_, ?_, ?_⟩
  · intro p s t hst hr
    exact p.run_of_within hst hr
  · intro source h t
    exact compileWith_of_compile h t
  · intro p v s h k
    exact Program.repeatedly_run h k

/-- A variable that the program copies is bound to null before it. -/
theorem run_in_larger_scope_copy :
    ∃ p v s, readProgram "begin\nx = 1\ny = x\nend" = .ok p ∧ p.run .empty = (.ok v, s) ∧
      (Scope.empty.Within (Scope.empty.declare "x" .null) ∧ ¬ MissesName (p.run .empty).1 ∧
        p.run (Scope.empty.declare "x" .null) =
          ((p.run .empty).1, (Scope.empty.declare "x" .null).overwrite (p.run .empty).2)) ∧
      (compile "begin\nx = 1\ny = x\nend" = .ok v ∧
        (compileWith "begin\nx = 1\ny = x\nend" (Scope.empty.declare "x" .null)).1 =
          compile "begin\nx = 1\ny = x\nend") ∧
      Scope.repeatedly p.run 3 .empty = (List.replicate 3 (.ok v), s) := by
  obtain ⟨ts, p, hread, hok⟩ := exists_of_any_readProgram "begin\nx = 1\ny = x\nend"
    (fun p => (p.run .empty).1.toOption.isSome) (by decide +kernel)
  have hp := readProgram_eq_ok_iff.mpr ⟨ts, hread⟩
  obtain ⟨v, s, hrun⟩ : ∃ v s, p.run .empty = (.ok v, s) := by
    rcases hr : p.run .empty with ⟨d | v, s⟩
    · rw [hr] at hok
      cases hok
    · exact ⟨v, s, rfl⟩
  have hwithin : Scope.empty.Within (Scope.empty.declare "x" .null) := Scope.empty_within _
  have hmiss : ¬ MissesName (p.run .empty).1 := by
    rw [hrun]
    exact not_missesName_ok v
  have hcompile : compile "begin\nx = 1\ny = x\nend" = .ok v := by
    rw [compile, compileWith_of_ok hp, hrun]
  obtain ⟨hlarger, hevery, hagain⟩ := run_in_larger_scope
  exact ⟨p, v, s, hp, hrun, ⟨hwithin, hmiss, hlarger p _ _ hwithin hmiss⟩,
    ⟨hcompile, hevery _ (.inl ⟨v, hcompile⟩) _⟩, hagain p v s hrun 2⟩

end AssignLang
