/-
# Other names for the variables

A run looks at the names of variables only to find their values. So a program whose
variables have other names, in a scope with these names, runs in the same way, provided
that different names stay different: it has the same value, or the same diagnostic with
the new name in it, and leaves the same scope with the new names. Where two names
became one, a binding would take the place of another.

Key definitions: `Expr.rename`, `Program.rename`, `Scope.rename`, `Diagnostic.rename`.
Key theorems: `Scope.lookup_rename_eq_some_iff`, `Scope.rename_declare`,
`Expr.eval_rename`, `Assignment.runAll_rename`, `renaming_law`.
-/
import AssignLang.Proofs.Running.Places
import AssignLang.Proofs.Scope.Declarations

namespace AssignLang

section
variable (r : String → String)

/-- The token with the new name in the place of its text. -/
def Token.rename (t : Token) : Token := { t with text := r t.text }

/-- The expression with other names for its variables. -/
def Expr.rename : Expr → Expr
  | integer l => integer l
  | real l => real l
  | name t => name (t.rename r)
  | negate t e => negate t e.rename
  | binary op t left right => binary op t left.rename right.rename

/-- The assignment with other names for its target and the variables on its right. -/
def Assignment.rename (a : Assignment) : Assignment :=
  { a with target := a.target.rename r, expr := a.expr.rename r }

/-- The program with other names for its variables. The names in its definitions stay. -/
def Program.rename (p : Program) : Program :=
  { p with assignments := p.assignments.map (Assignment.rename r) }

/-- The scope with other names for what it binds. -/
def Scope.rename (s : Scope) : Scope := ofDeclarations (s.bindings.map fun b => (r b.1, b.2))

/-- The cause with the new name, if it is that a variable has no value. -/
def Cause.rename : Cause → Cause
  | undefinedVariable name => undefinedVariable (r name)
  | cause => cause

/-- The diagnostic at the same place with the new name. -/
def Diagnostic.rename (d : Diagnostic) : Diagnostic := { d with cause := d.cause.rename r }

end

section
variable {r : String → String} (hr : Function.Injective r)
include hr

/-! ### Scopes -/

namespace Scope

/-- **A scope with other names** binds the new names to what the old ones were bound
to, and no other name. -/
theorem lookup_rename_eq_some_iff (s : Scope) {x : String} {v : Value} :
    (s.rename r).lookup x = some v ↔ ∃ name, r name = x ∧ s.lookup name = some v := by
  have hnames : ((s.bindings.map fun b => (r b.1, b.2)).reverse.map Prod.fst).Nodup := by
    rw [List.map_reverse, List.nodup_reverse, List.map_map]
    have hmapped := s.nodup_names.map hr
    rwa [names, List.map_map] at hmapped
  rw [rename, lookup_ofDeclarations, lookup_eq_some_iff_mem hnames, List.mem_reverse, List.mem_map]
  constructor
  · rintro ⟨⟨name, w⟩, hb, heq⟩
    cases heq
    exact ⟨name, rfl, s.mem_bindings_iff.mp hb⟩
  · rintro ⟨name, rfl, hname⟩
    exact ⟨(name, v), s.mem_bindings_iff.mpr hname, rfl⟩

theorem lookup_rename (s : Scope) (name : String) :
    (s.rename r).lookup (r name) = s.lookup name := by
  ext v
  rw [lookup_rename_eq_some_iff hr]
  constructor
  · rintro ⟨other, hother, hlookup⟩
    rwa [← hr hother]
  · exact fun h => ⟨name, rfl, h⟩

/-- A declaration can be made before the names are changed or afterwards. -/
theorem rename_declare (s : Scope) (name : String) (v : Value) :
    (s.declare name v).rename r = (s.rename r).declare (r name) v := by
  apply ext_lookup
  intro x
  ext w
  rw [lookup_rename_eq_some_iff hr, lookup_declare]
  by_cases hx : x = r name
  · subst hx
    rw [if_pos rfl]
    constructor
    · rintro ⟨other, hother, hlookup⟩
      rwa [hr hother, lookup_declare_self] at hlookup
    · exact fun h => ⟨name, rfl, by rwa [lookup_declare_self]⟩
  · rw [if_neg hx, lookup_rename_eq_some_iff hr]
    refine exists_congr fun other => and_congr_right fun hother => ?_
    have hne : other ≠ name := fun h => hx (by rw [← hother, h])
    rw [lookup_declare_of_ne s v hne]

theorem read_rename (s : Scope) (t : Token) :
    (s.rename r).read (t.rename r) = (s.read t).mapError (Diagnostic.rename r) := by
  have hlookup := lookup_rename hr s t.text
  unfold read
  rw [Token.rename, hlookup]
  cases s.lookup t.text <;> rfl

end Scope

end

/-! ### Operations -/

section
variable (r : String → String)

/-- What an operator reports has no name in it. -/
theorem Value.asNumber_rename (v : Value) (t : Token) :
    v.asNumber t = (v.asNumber t).mapError (Diagnostic.rename r) := by
  cases v <;> rfl

theorem Value.negate_rename (v : Value) (t : Token) :
    v.negate t = (v.negate t).mapError (Diagnostic.rename r) :=
  bind_eq_mapError (v.asNumber_rename r t) fun _ => rfl

theorem BinaryOp.apply_rename (op : BinaryOp) (t : Token) (left right : Value) :
    op.apply t left right = (op.apply t left right).mapError (Diagnostic.rename r) := by
  refine bind_eq_mapError (left.asNumber_rename r t) fun x => ?_
  refine bind_eq_mapError (right.asNumber_rename r t) fun y => ?_
  split <;> rfl

end

/-! ### Expressions and runs -/

section
variable {r : String → String} (hr : Function.Injective r)
include hr

/-- **An expression has the same value by other names.** -/
theorem Expr.eval_rename (s : Scope) (e : Expr) :
    (e.rename r).eval (s.rename r) = (e.eval s).mapError (Diagnostic.rename r) := by
  induction e with
  | integer l => rfl
  | real l => rfl
  | name t => exact s.read_rename hr t
  | negate t e ih => exact bind_eq_mapError ih fun v => v.negate_rename r t
  | binary op t left right ihl ihr =>
    exact bind_eq_mapError ihl fun x => bind_eq_mapError ihr fun y => op.apply_rename r t x y

theorem Assignment.run_rename (a : Assignment) (s : Scope) :
    (a.rename r).run (s.rename r) =
      ((a.run s).1.mapError (Diagnostic.rename r), (a.run s).2.rename r) := by
  have heval := Expr.eval_rename hr s a.expr
  unfold run
  rw [rename, heval]
  cases a.expr.eval s with
  | error d => rfl
  | ok v =>
    show (_, (s.rename r).declare (r a.target.text) v) = _
    rw [← Scope.rename_declare hr]
    rfl

/-- **The scopes stay the same but for the names**, assignment by assignment. -/
theorem Assignment.runAll_rename : ∀ (last : Value) (as : List Assignment) (s : Scope),
    runAll last (as.map (rename r)) (s.rename r) =
      ((runAll last as s).1.mapError (Diagnostic.rename r), (runAll last as s).2.rename r)
  | _, [], _ => rfl
  | last, a :: as, s => by
    rw [List.map_cons, runAll, runAll, a.run_rename hr]
    rcases a.run s with ⟨d | v, s'⟩
    · rfl
    · exact runAll_rename v as s'

/-- **Variables have names only to be told apart.** A program with other names for its
variables, different ones for different variables, has the same value in the scope with
the other names, or the same diagnostic but for the name in it, and leaves the same
scope but for the names. -/
theorem renaming_law (p : Program) (s : Scope) :
    (p.rename r).run (s.rename r) =
      ((p.run s).1.mapError (Diagnostic.rename r), (p.run s).2.rename r) :=
  Assignment.runAll_rename hr .null p.assignments s

end

/-- Every name is written with a letter before it, and the second assignment misses
one. -/
theorem renaming_law_unbound :
    let r : String → String := fun x => "v" ++ x
    let t : String → Token := fun x => ⟨.identifier, x, ⟨0, 1⟩, .start, false⟩
    let p : Program := ⟨[], [⟨none, t "b", .name (t "a")⟩, ⟨none, t "a", .name (t "c")⟩]⟩
    let s := Scope.empty.declare "a" .null
    Function.Injective r ∧ (p.rename r).run (s.rename r) =
      ((p.run s).1.mapError (Diagnostic.rename r), (p.run s).2.rename r) := by
  intro r t p s
  have hr : Function.Injective r := fun x y h => (String.append_right_inj "v").mp h
  exact ⟨hr, renaming_law hr p s⟩

end AssignLang
