/-
# The variables of an expression

An expression looks at the scope for its variables and for nothing else, so it has the
same result in scopes that agree on them. And it has one result however often it is
evaluated: a variable that is bound to the value of an expression can be read as that
expression itself. This holds for diagnostics as for values: to put the expression in
the place of the variable brings in no diagnostic, takes none away and changes none.

Key definitions: `Expr.names`, `Expr.Reads`, `Expr.subst`.
Key theorems: `Expr.filterMap_postOrder`, `Expr.eval_congr`, `Expr.eval_subst`,
`Progress.eval_subst`, `substitution_law`.
-/
import AssignLang.Proofs.Reading.Tokens
import AssignLang.Proofs.Running.Effect
import AssignLang.Proofs.Running.Operations

namespace AssignLang

/-! ### What is read -/

/-- The variables of an expression from left to right. -/
def Expr.names : Expr → List Token
  | integer _ => []
  | real _ => []
  | name t => [t]
  | negate _ e => e.names
  | binary _ _ l r => l.names ++ r.names

/-- They are in the order in which they stand. -/
theorem Expr.names_sublist (e : Expr) : e.names.Sublist e.tokens := by
  induction e with
  | integer l => exact List.nil_sublist _
  | real l => exact List.nil_sublist _
  | name t => exact List.Sublist.refl _
  | negate t e ih => exact ih.cons t
  | binary op t l r ihl ihr => exact ihl.append (ihr.cons t)

/-- The variable that a node reads. -/
def Node.name? : Node → Option Token
  | name t => some t
  | _ => none

/-- The nodes of an expression come to its variables from left to right. -/
theorem Expr.filterMap_postOrder (e : Expr) : e.postOrder.filterMap Node.name? = e.names := by
  induction e with
  | integer l => rfl
  | real l => rfl
  | name t => rfl
  | negate t e ih =>
    rw [postOrder, List.filterMap_append, ih]
    exact List.append_nil _
  | binary op t l r ihl ihr =>
    rw [postOrder, List.filterMap_append, List.filterMap_append, ihl, ihr]
    exact List.append_nil _

/-- A variable with this name is in the expression. -/
def Expr.Reads (e : Expr) (x : String) : Prop := ∃ t ∈ e.names, t.text = x

instance (e : Expr) (x : String) : Decidable (e.Reads x) :=
  inferInstanceAs (Decidable (∃ t ∈ e.names, t.text = x))

theorem Expr.reads_binary {op : BinaryOp} {t : Token} {l r : Expr} {x : String} :
    (binary op t l r).Reads x ↔ l.Reads x ∨ r.Reads x := by
  simp only [Reads, names, List.mem_append, or_and_right, exists_or]

theorem Scope.read_congr {s t : Scope} {token : Token}
    (h : s.lookup token.text = t.lookup token.text) : s.read token = t.read token := by
  unfold read
  rw [h]

/-- **An expression has the same result in scopes that agree on its variables.** -/
theorem Expr.eval_congr {s t : Scope} (e : Expr)
    (h : ∀ x, e.Reads x → s.lookup x = t.lookup x) : e.eval s = e.eval t := by
  induction e with
  | integer l => rfl
  | real l => rfl
  | name token => exact Scope.read_congr (h token.text ⟨token, List.mem_singleton_self _, rfl⟩)
  | negate token e ih => rw [eval, eval, ih h]
  | binary op token l r ihl ihr =>
    have hl : ∀ x, l.Reads x → s.lookup x = t.lookup x :=
      fun x hx => h x (reads_binary.mpr (.inl hx))
    have hr : ∀ x, r.Reads x → s.lookup x = t.lookup x :=
      fun x hx => h x (reads_binary.mpr (.inr hx))
    rw [eval, eval, ihl hl, ihr hr]

/-! ### An expression for a variable -/

/-- The expression with `e` in the place of every variable `x`. -/
def Expr.subst : Expr → String → Expr → Expr
  | integer l, _, _ => integer l
  | real l, _, _ => real l
  | name t, x, e => if t.text = x then e else name t
  | negate t f, x, e => negate t (f.subst x e)
  | binary op t l r, x, e => binary op t (l.subst x e) (r.subst x e)

/-- **A variable that is bound to the value of an expression** can be read as the
expression. -/
theorem Expr.eval_subst {e : Expr} {s : Scope} {v : Value} (he : e.eval s = .ok v) (x : String)
    (f : Expr) : f.eval (s.declare x v) = (f.subst x e).eval s := by
  induction f with
  | integer l => rfl
  | real l => rfl
  | name t =>
    rw [subst]
    by_cases hx : t.text = x
    · rw [if_pos hx, he, eval, Scope.read_eq_ok_iff, hx, Scope.lookup_declare_self]
    · rw [if_neg hx]
      exact Scope.read_congr (s.lookup_declare_of_ne v hx)
  | negate t f ih => rw [subst, eval, eval, ih]
  | binary op t l r ihl ihr => rw [subst, eval, eval, ihl, ihr]

/-- What is evaluated after an assignment can be evaluated before it, with the right side
in the place of the target. -/
theorem Progress.eval_subst {as : List Assignment} {n : Nat} {scopes : Nat → Scope}
    {values : Nat → Value} (h : Progress as n scopes values) {i : Nat} {a : Assignment}
    (hi : i < n) (ha : as[i]? = some a) (f : Expr) :
    f.eval (scopes (i + 1)) = (f.subst a.target.text a.expr).eval (scopes i) := by
  rw [(h.binds i a ⟨hi, ha⟩).eq_declare]
  exact Expr.eval_subst (h.eval i a ⟨hi, ha⟩) a.target.text f

/-- **Substitution.** If an expression has a value, another one has the same result with
a variable bound to this value as with the expression in the place of the variable. So
of two assignments in a row the second gives its target the value that its right side
has before both, with the right side of the first in the place of the first's target;
and if that has a diagnostic, the run stops with it. -/
theorem substitution_law :
    (∀ (e f : Expr) (x : String) (s : Scope) (v : Value), e.eval s = .ok v →
      f.eval (s.declare x v) = (f.subst x e).eval s) ∧
    ∀ (p : Program) (s : Scope), ∃ n scopes values,
      Effect p.assignments s (p.run s) n scopes values ∧
      ∀ i a b, p.assignments[i]? = some a ∧ p.assignments[i + 1]? = some b →
        (i + 1 < n →
          (b.expr.subst a.target.text a.expr).eval (scopes i) = .ok (values (i + 1)) ∧
            (scopes (i + 2)).lookup b.target.text = some (values (i + 1))) ∧
        (i + 1 = n → ∃ d, (b.expr.subst a.target.text a.expr).eval (scopes i) = .error d ∧
          (p.run s).1 = .error d) := by
  refine ⟨fun e f x s v he => Expr.eval_subst he x f, fun p s => ?_⟩
  obtain ⟨n, scopes, values, heffect⟩ := Assignment.exists_effect p.assignments s
  refine ⟨n, scopes, values, heffect, ?_⟩
  rintro i a b ⟨ha, hb⟩
  refine ⟨fun hi => ?_, fun hi => ?_⟩
  · rw [← heffect.progress.eval_subst (by omega) ha]
    exact ⟨heffect.progress.eval _ b ⟨hi, hb⟩, (heffect.progress.binds _ b ⟨hi, hb⟩).1⟩
  · rw [← heffect.progress.eval_subst (by omega) ha, hi, ← heffect.final]
    exact heffect.ending.stopped_of_getElem? (hi ▸ hb)

/-- `x = y` and `w = x + z`, with `y` bound to null and `z` not bound. -/
theorem substitution_law_unbound :
    let name (text : String) : Token := .sample .identifier text
    let copied : Expr := .name (name "y")
    let sum : Expr := .binary .add (.sample .additive "+") (.name (name "x")) (.name (name "z"))
    let p : Program := ⟨[], [⟨none, name "x", copied⟩, ⟨none, name "w", sum⟩]⟩
    let s : Scope := Scope.empty.declare "y" .null
    (copied.eval s = .ok .null ∧
      sum.eval (s.declare "x" .null) = (sum.subst "x" copied).eval s) ∧
    ∃ n scopes values, Effect p.assignments s (p.run s) n scopes values ∧
      (1 < n → (sum.subst "x" copied).eval (scopes 0) = .ok (values 1) ∧
        (scopes 2).lookup "w" = some (values 1)) ∧
      (1 = n → ∃ d, (sum.subst "x" copied).eval (scopes 0) = .error d ∧ (p.run s).1 = .error d) := by
  intro name copied sum p s
  obtain ⟨hexpr, hrun⟩ := substitution_law
  obtain ⟨n, scopes, values, heffect, hrow⟩ := hrun p s
  exact ⟨⟨rfl, hexpr copied sum "x" s .null rfl⟩, n, scopes, values, heffect,
    hrow 0 _ _ ⟨rfl, rfl⟩⟩

end AssignLang
