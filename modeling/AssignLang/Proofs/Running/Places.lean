/-
# Running tokens at other places

A run looks at the texts of tokens, and at their places only to write them into
a diagnostic. So a program whose tokens are replaced by tokens of the same kind
and text runs in the same way: it leaves the same scope and has the same value,
or its diagnostic is the one at the new token.

Key definitions: `Relocates`.
Key theorems: `Expr.eval_mapTokens`, `Assignment.runAll_mapTokens`.
-/
import AssignLang.Compile
import AssignLang.Proofs.Reading.Places

namespace AssignLang

/-- Tokens are replaced by tokens of the same kind and text, and a diagnostic at
a token by one at its replacement. -/
structure Relocates (f : Token → Token) (g : Diagnostic → Diagnostic) : Prop where
  keeps : KeepsLexeme f
  fault_eq : ∀ t cause, (f t).fault cause = g (t.fault cause)

/-- Two computations in a row whose diagnostics are changed by `g`. -/
theorem bind_eq_mapError {α β : Type} {g : Diagnostic → Diagnostic} {x x' : Except Diagnostic α}
    {k k' : α → Except Diagnostic β} (hx : x' = x.mapError g)
    (hk : ∀ a, k' a = (k a).mapError g) : (x' >>= k') = (x >>= k).mapError g := by
  rw [hx]
  cases x with
  | error d => rfl
  | ok a => exact hk a

section
variable {f : Token → Token} {g : Diagnostic → Diagnostic} (h : Relocates f g)
include h

/-! ### Operations -/

theorem Value.asNumber_token (v : Value) (t : Token) :
    v.asNumber (f t) = (v.asNumber t).mapError g := by
  cases v with
  | number x => rfl
  | null => exact congrArg Except.error (h.fault_eq t _)

theorem Value.negate_token (v : Value) (t : Token) :
    v.negate (f t) = (v.negate t).mapError g :=
  bind_eq_mapError (v.asNumber_token h t) fun _ => rfl

theorem BinaryOp.apply_token (op : BinaryOp) (t : Token) (left right : Value) :
    op.apply (f t) left right = (op.apply t left right).mapError g := by
  refine bind_eq_mapError (left.asNumber_token h t) fun x => ?_
  refine bind_eq_mapError (right.asNumber_token h t) fun y => ?_
  split
  · exact congrArg Except.error (h.fault_eq t _)
  · rfl

theorem Scope.read_token (s : Scope) (t : Token) : s.read (f t) = (s.read t).mapError g := by
  rw [read, read, (h.keeps t).2]
  cases s.lookup t.text with
  | some v => rfl
  | none => exact congrArg Except.error (h.fault_eq t _)

/-! ### Expressions and runs -/

/-- **An expression with its tokens replaced has the same value**, or the
diagnostic at the new token. -/
theorem Expr.eval_mapTokens (s : Scope) (e : Expr) :
    (e.mapTokens f).eval s = (e.eval s).mapError g := by
  induction e with
  | integer l => rfl
  | real l => rfl
  | name t => exact s.read_token h t
  | negate t e ih => exact bind_eq_mapError ih fun v => v.negate_token h t
  | binary op t l r ihl ihr =>
    exact bind_eq_mapError ihl fun x => bind_eq_mapError ihr fun y => op.apply_token h t x y

theorem Assignment.run_mapTokens (a : Assignment) (s : Scope) :
    (a.mapTokens f).run s = ((a.run s).1.mapError g, (a.run s).2) := by
  have heval := Expr.eval_mapTokens h s a.expr
  unfold run
  rw [mapTokens, heval, (h.keeps a.target).2]
  cases a.expr.eval s <;> rfl

/-- **A run looks at the places of tokens only for its diagnostic.** -/
theorem Assignment.runAll_mapTokens : ∀ (last : Value) (as : List Assignment) (s : Scope),
    runAll last (as.map (mapTokens f)) s = ((runAll last as s).1.mapError g, (runAll last as s).2)
  | _, [], _ => rfl
  | last, a :: as, s => by
    rw [List.map_cons, runAll, runAll, a.run_mapTokens h]
    rcases a.run s with ⟨d | v, s'⟩
    · rfl
    · exact runAll_mapTokens v as s'

end

end AssignLang
