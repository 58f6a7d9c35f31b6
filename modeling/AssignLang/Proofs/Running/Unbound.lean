/-
# Variables without a value

Whether a variable in a program has a value when it is read depends on names alone: it
has none if its name is bound neither in the scope that the program starts in nor by an
assignment before the one that reads it. The target of that assignment itself does not
count, and neither do definitions.

A run goes through the nodes of the right sides one after the other, and the first node
that fails ends it. A variable fails just if it is unbound, and an operator just for its
operands. So the first unbound variable ends the run, unless an operator before it does.

Key definitions: `Site`, `Site.Before`, `NodeAt`, `UnboundAt`, `FirstUnbound`, `Raises`,
`Diagnostic.IsOperandFault`.
Key theorems: `Progress.lookup_eq_none_iff`, `Raises.run_eq`, `exists_raises`,
`Raises.unbound_or_operandFault`, `undefined_variable_law`.
-/
import AssignLang.Proofs.Running.Larger
import AssignLang.Proofs.Running.PostOrder
import AssignLang.Proofs.Running.Sequence
import AssignLang.Proofs.Running.Variables

namespace AssignLang

/-! ### Places -/

/-- A site in a program: a node of the right side of an assignment, operands before
their operator, both by their numbers. -/
structure Site where
  assignment : Nat
  node : Nat

/-- The assignments are in order, and the nodes of each of them. -/
def Site.Before (x y : Site) : Prop :=
  x.assignment < y.assignment ∨ x.assignment = y.assignment ∧ x.node < y.node

theorem Site.before_or_eq_or_before (x y : Site) : x.Before y ∨ x = y ∨ y.Before x := by
  obtain ⟨i, k⟩ := x
  obtain ⟨j, m⟩ := y
  simp only [Before, mk.injEq]
  omega

theorem Site.wellFounded_before : WellFounded Before := by
  have hpairs := (Prod.lex Nat.lt_wfRel Nat.lt_wfRel).wf
  refine Subrelation.wf ?_ (InvImage.wf (fun x : Site => (x.assignment, x.node)) hpairs)
  intro x y h
  exact Prod.lex_def.mpr h

/-- The node at a site. -/
def NodeAt (as : List Assignment) (x : Site) (n : Node) : Prop :=
  ∃ a, as[x.assignment]? = some a ∧ a.expr.postOrder[x.node]? = some n

theorem NodeAt.eq {as : List Assignment} {x : Site} {n m : Node} (hn : NodeAt as x n)
    (hm : NodeAt as x m) : n = m := by
  obtain ⟨a, ha, hn⟩ := hn
  obtain ⟨b, hb, hm⟩ := hm
  obtain rfl := Option.some.inj (ha.symm.trans hb)
  exact Option.some.inj (hn.symm.trans hm)

/-- The variable `t` at a site is bound neither in the scope nor by an assignment before
its own. -/
structure UnboundAt (as : List Assignment) (s : Scope) (x : Site) (t : Token) : Prop where
  node : NodeAt as x (.name t)
  not_bound : s.lookup t.text = none
  not_target : ∀ a ∈ as.take x.assignment, a.target.text ≠ t.text

/-- The first of the unbound variables. -/
structure FirstUnbound (as : List Assignment) (s : Scope) (x : Site) (t : Token) : Prop
    extends UnboundAt as s x t where
  first : ∀ y u, y.Before x → ¬ UnboundAt as s y u

/-- The run comes to a site, and the node there fails with the diagnostic. -/
inductive Raises (as : List Assignment) (s : Scope) (x : Site) (d : Diagnostic) : Prop
  | intro {a : Assignment} {n : Node} {scopes : Nat → Scope} {values : Nat → Value}
      {stack : List Value} (ha : as[x.assignment]? = some a)
      (hn : a.expr.postOrder[x.node]? = some n) (hfirst : scopes 0 = s)
      (hprogress : Progress as x.assignment scopes values)
      (hbefore : Node.runAll (scopes x.assignment) (a.expr.postOrder.take x.node) [] = .ok stack)
      (hstep : n.step (scopes x.assignment) stack = .error (.fault d))

/-- The diagnostic is about the operands of an operator: one of them is no number, or the
right one is zero. -/
def Diagnostic.IsOperandFault (d : Diagnostic) : Prop :=
  (∃ found, d.cause = .notANumber found) ∨ ∃ op, d.cause = .divisionByZero op

theorem Diagnostic.IsOperandFault.ne_undefinedVariable {d : Diagnostic} (h : d.IsOperandFault)
    (name : String) : d.cause ≠ .undefinedVariable name := by
  intro hd
  rcases h with ⟨found, hfound⟩ | ⟨op, hop⟩
  · rw [hd] at hfound
    cases hfound
  · rw [hd] at hop
    cases hop

variable {as : List Assignment} {s : Scope}

/-- If a variable is unbound, one of the unbound variables is the first. -/
theorem UnboundAt.exists_first {x : Site} {t : Token} (h : UnboundAt as s x t) :
    ∃ y u, FirstUnbound as s y u := by
  induction x using Site.wellFounded_before.induction generalizing t with
  | h x ih =>
    by_cases hfirst : ∃ y u, y.Before x ∧ UnboundAt as s y u
    · obtain ⟨y, u, hy, hu⟩ := hfirst
      exact ih y hy hu
    · exact ⟨x, t, h, fun y u hy hu => hfirst ⟨y, u, hy, hu⟩⟩

/-! ### Nodes -/

namespace Node

/-- **How a node fails**: a variable because it is not bound, an operator for its
operands. -/
theorem step_eq_fault {n : Node} {stack : List Value} {d : Diagnostic}
    (h : n.step s stack = .error (.fault d)) :
    (∃ t, n = .name t ∧ s.lookup t.text = none ∧ d = t.fault (.undefinedVariable t.text)) ∨
      n.name? = none ∧ d.IsOperandFault := by
  cases n with
  | integer l => cases h
  | real l => cases h
  | name t =>
    rw [step_name, pushed_eq_fault_iff] at h
    obtain ⟨hnone, rfl⟩ := Scope.read_eq_error_iff.mp h
    exact .inl ⟨t, rfl, hnone, rfl⟩
  | negate t =>
    match stack, h with
    | v :: stack, h =>
      rw [step_negate, pushed_eq_fault_iff] at h
      obtain ⟨-, rfl⟩ := Value.negate_eq_error_iff.mp h
      exact .inr ⟨rfl, .inl ⟨_, rfl⟩⟩
  | binary op t =>
    match stack, h with
    | right :: left :: stack, h =>
      rw [step_binary, pushed_eq_fault_iff] at h
      refine .inr ⟨rfl, ?_⟩
      rcases BinaryOp.apply_eq_error_iff.mp h with ⟨-, rfl⟩ | ⟨x, -, -, rfl⟩ | ⟨x, y, -, -, -, rfl⟩
      · exact .inl ⟨_, rfl⟩
      · exact .inl ⟨_, rfl⟩
      · exact .inr ⟨_, rfl⟩

/-- A variable that is passed is bound. -/
theorem lookup_ne_none_of_step {t : Token} {stack stack' : List Value}
    (h : (Node.name t).step s stack = .ok stack') : s.lookup t.text ≠ none := by
  intro hnone
  rw [step, hnone] at h
  cases h

/-- All variables that a pass goes over are bound. -/
theorem lookup_ne_none_of_runAll {t : Token} : ∀ {nodes : List Node} {stack stack' : List Value},
    runAll s nodes stack = .ok stack' → .name t ∈ nodes → s.lookup t.text ≠ none
  | n :: nodes, stack, stack', h, ht => by
    rw [runAll_cons] at h
    obtain ⟨next, hn, hnodes⟩ := bind_eq_ok_iff.mp h
    rcases List.mem_cons.mp ht with rfl | ht
    · exact lookup_ne_none_of_step hn
    · exact lookup_ne_none_of_runAll hnodes ht

/-- A node that fails ends the pass. -/
theorem runAll_eq_error {nodes : List Node} {k : Nat} {n : Node} {stack stack' : List Value}
    {halt : Halt} (hn : nodes[k]? = some n) (hbefore : runAll s (nodes.take k) stack = .ok stack')
    (hstep : n.step s stack' = .error halt) : runAll s nodes stack = .error halt := by
  obtain ⟨hk, rfl⟩ := List.getElem?_eq_some_iff.mp hn
  have hsplit : nodes = nodes.take k ++ nodes[k] :: nodes.drop (k + 1) := by
    rw [← List.drop_eq_getElem_cons hk, List.take_append_drop]
  rw [hsplit, runAll_append, hbefore]
  show runAll s (nodes[k] :: nodes.drop (k + 1)) stack' = _
  rw [runAll_cons, hstep]
  rfl

end Node

/-- All variables of an expression that has a value are bound. -/
theorem Expr.lookup_ne_none_of_eval {e : Expr} {v : Value} (h : e.eval s = .ok v) {t : Token}
    (ht : .name t ∈ e.postOrder) : s.lookup t.text ≠ none := by
  have hpass := e.runAll_postOrder (s := s) []
  rw [h] at hpass
  exact Node.lookup_ne_none_of_runAll hpass ht

/-! ### Runs -/

section
variable {n : Nat} {scopes : Nat → Scope} {values : Nat → Value}

/-- **What is not bound during a run** is bound neither before it nor by the assignments
so far. -/
theorem Progress.lookup_eq_none_iff (h : Progress as n scopes values) (hn : n ≤ as.length)
    {x : String} : (scopes n).lookup x = none ↔
      (scopes 0).lookup x = none ∧ ∀ a ∈ as.take n, a.target.text ≠ x := by
  have hcontains := not_congr (h.contains_iff (x := x) hn)
  simpa [Scope.contains] using hcontains

/-- An unbound variable is not bound when the run comes to its assignment. -/
theorem Progress.lookup_of_unboundAt {x : Site} {t : Token}
    (h : Progress as x.assignment scopes values) (hx : UnboundAt as (scopes 0) x t) :
    (scopes x.assignment).lookup t.text = none := by
  obtain ⟨⟨a, ha, -⟩, hbound, htarget⟩ := hx
  have hlength := (List.getElem?_eq_some_iff.mp ha).1
  exact (h.lookup_eq_none_iff (Nat.le_of_lt hlength)).mpr ⟨hbound, htarget⟩

/-- A variable in an assignment that had its effect is bound. -/
theorem Progress.not_unboundAt (h : Progress as n scopes values) {x : Site}
    (hx : x.assignment < n) (t : Token) : ¬ UnboundAt as (scopes 0) x t := by
  intro hunbound
  obtain ⟨a, ha, hnode⟩ := hunbound.node
  have hvalue := h.eval _ a ⟨hx, ha⟩
  exact Expr.lookup_ne_none_of_eval hvalue (List.mem_of_getElem? hnode)
    ((h.of_lt hx).lookup_of_unboundAt hunbound)

/-- **A run that has come so far** goes on from there. -/
theorem Progress.runAll_eq (last : Value) (h : Progress as n scopes values) (hn : n ≤ as.length) :
    Assignment.runAll last as (scopes 0) =
      Assignment.runAll (lastValue last values n) (as.drop n) (scopes n) := by
  induction n with
  | zero => rfl
  | succ n ih =>
    have hget : as[n]? = some as[n] := List.getElem?_eq_getElem (by omega)
    have heval := h.eval n as[n] ⟨Nat.lt_succ_self n, hget⟩
    have hbinds := h.binds n as[n] ⟨Nat.lt_succ_self n, hget⟩
    rw [ih h.of_succ (by omega), List.drop_eq_getElem_cons (by omega), Assignment.runAll,
      Assignment.run_of_ok heval, ← hbinds.eq_declare]
    rfl

end

/-- A run that has a value has no unbound variables. -/
theorem not_unboundAt_of_runAll {last v : Value} (h : (Assignment.runAll last as s).1 = .ok v)
    (x : Site) (t : Token) : ¬ UnboundAt as s x t := by
  intro hx
  obtain ⟨a, ha, -⟩ := hx.node
  obtain ⟨n, scopes, values, hn, rfl, hprogress, -, hending⟩ := Assignment.exists_progress last as s
  rw [h] at hending
  cases hending with
  | finished hlength =>
    have hlt : x.assignment < n := hlength ▸ (List.getElem?_eq_some_iff.mp ha).1
    exact hprogress.not_unboundAt hlt t hx

/-- A run that has a diagnostic comes to a node that fails with it. -/
theorem exists_raises {last : Value} {d : Diagnostic}
    (h : (Assignment.runAll last as s).1 = .error d) : ∃ x, Raises as s x d := by
  obtain ⟨n, scopes, values, hn, hfirst, hprogress, -, hending⟩ :=
    Assignment.exists_progress last as s
  rw [h] at hending
  cases hending with
  | @stopped a _ ha he =>
    have hpass := a.expr.runAll_postOrder (s := scopes n) []
    rw [he] at hpass
    obtain ⟨before, node, after, stack, hsplit, hbefore, hstep⟩ :=
      Node.exists_of_runAll_eq_error hpass
    refine ⟨⟨n, before.length⟩, .intro ha ?_ hfirst hprogress ?_ hstep⟩
    · simp [hsplit]
    · simpa [hsplit] using hbefore

namespace Raises

variable {x : Site} {d : Diagnostic}

/-- **The run ends at the node that fails.** -/
theorem run_eq (h : Raises as s x d) (last : Value) :
    (Assignment.runAll last as s).1 = .error d := by
  cases h with
  | @intro a n scopes values stack ha hn hfirst hprogress hbefore hstep =>
    subst hfirst
    obtain ⟨hlt, rfl⟩ := List.getElem?_eq_some_iff.mp ha
    have heval : as[x.assignment].expr.eval (scopes x.assignment) = .error d := by
      rw [← pushed_eq_fault_iff, ← Expr.runAll_postOrder]
      exact Node.runAll_eq_error hn hbefore hstep
    rw [hprogress.runAll_eq last (Nat.le_of_lt hlt), List.drop_eq_getElem_cons hlt,
      Assignment.runAll, Assignment.run_of_error heval]

/-- **What fails** is an unbound variable, or an operator for its operands. -/
theorem unbound_or_operandFault (h : Raises as s x d) :
    (∃ t, UnboundAt as s x t ∧ d = t.fault (.undefinedVariable t.text)) ∨
      (∀ t, ¬ NodeAt as x (.name t)) ∧ d.IsOperandFault := by
  obtain ⟨ha, hn, rfl, hprogress, -, hstep⟩ := h
  rcases Node.step_eq_fault hstep with ⟨t, rfl, hnone, hd⟩ | ⟨hname, hd⟩
  · have hlength := (List.getElem?_eq_some_iff.mp ha).1
    obtain ⟨hbound, htarget⟩ := (hprogress.lookup_eq_none_iff (Nat.le_of_lt hlength)).mp hnone
    exact .inl ⟨t, ⟨⟨_, ha, hn⟩, hbound, htarget⟩, hd⟩
  · refine .inr ⟨fun t ht => ?_, hd⟩
    rw [NodeAt.eq ⟨_, ha, hn⟩ ht] at hname
    cases hname

/-- All variables before the node that fails are bound. -/
theorem not_unboundAt (h : Raises as s x d) {y : Site} (hy : y.Before x) (t : Token) :
    ¬ UnboundAt as s y t := by
  obtain ⟨ha, hn, rfl, hprogress, hbefore, -⟩ := h
  rcases hy with hlt | ⟨heq, hlt⟩
  · exact hprogress.not_unboundAt hlt t
  · intro hunbound
    obtain ⟨b, hb, ht⟩ := hunbound.node
    rw [← heq] at ha hprogress hbefore
    obtain rfl := Option.some.inj (ha.symm.trans hb)
    have hmem := List.mem_of_getElem? ((List.getElem?_take_of_lt hlt).trans ht)
    exact Node.lookup_ne_none_of_runAll hbefore hmem (hprogress.lookup_of_unboundAt hunbound)

end Raises

namespace FirstUnbound

variable {x : Site} {t : Token}

/-- What fails before the first unbound variable fails for its operands. -/
theorem operandFault (hx : FirstUnbound as s x t) {y : Site} {d : Diagnostic} (hy : y.Before x)
    (h : Raises as s y d) : d.IsOperandFault := by
  rcases h.unbound_or_operandFault with ⟨u, hu, -⟩ | ⟨-, hfault⟩
  · exact absurd hu (hx.first y u hy)
  · exact hfault

/-- **A run that nothing stops before the first unbound variable** stops there. -/
theorem run_eq (hx : FirstUnbound as s x t) (hnone : ∀ y d, y.Before x → ¬ Raises as s y d)
    (last : Value) :
    (Assignment.runAll last as s).1 = .error (t.fault (.undefinedVariable t.text)) := by
  cases hr : (Assignment.runAll last as s).1 with
  | ok v => exact absurd hx.toUnboundAt (not_unboundAt_of_runAll hr x t)
  | error d =>
    obtain ⟨y, hraises⟩ := exists_raises hr
    rcases y.before_or_eq_or_before x with hy | rfl | hy
    · exact absurd hraises (hnone y d hy)
    · rcases hraises.unbound_or_operandFault with ⟨u, hu, rfl⟩ | ⟨hname, -⟩
      · rw [Node.name.inj (hu.node.eq hx.node)]
      · exact absurd hx.node (hname t)
    · exact absurd hx.toUnboundAt (hraises.not_unboundAt hy t)

end FirstUnbound

/-- **The first unbound variable.** A program without unbound variables is not stopped by
a variable. If there are some, the program has no value. An operator before the first
of them that fails ends the run with its diagnostic, which is about its operands; and
if none fails, the run ends at that variable. The variables of an expression come in
the order in which they stand. -/
theorem undefined_variable_law (p : Program) (s : Scope) :
    (∀ e : Expr, e.postOrder.filterMap Node.name? = e.names ∧ e.names.Sublist e.tokens) ∧
    ((∀ x t, ¬ UnboundAt p.assignments s x t) → ¬ MissesName (p.run s).1) ∧
    ((∃ x t, UnboundAt p.assignments s x t) → ∃ x t, FirstUnbound p.assignments s x t) ∧
    ∀ x t, FirstUnbound p.assignments s x t →
      (∀ v, (p.run s).1 ≠ .ok v) ∧
      (∀ y d, y.Before x ∧ Raises p.assignments s y d →
        d.IsOperandFault ∧ (p.run s).1 = .error d) ∧
      ((∀ y d, y.Before x → ¬ Raises p.assignments s y d) →
        (p.run s).1 = .error (t.fault (.undefinedVariable t.text))) := by
  refine ⟨fun e => ⟨e.filterMap_postOrder, e.names_sublist⟩, ?_, ?_, ?_⟩
  · rintro hall ⟨d, name, hd, hcause⟩
    obtain ⟨x, hx⟩ := exists_raises hd
    rcases hx.unbound_or_operandFault with ⟨t, ht, -⟩ | ⟨-, hfault⟩
    · exact hall x t ht
    · exact hfault.ne_undefinedVariable name hcause
  · rintro ⟨x, t, hx⟩
    exact hx.exists_first
  · intro x t hx
    refine ⟨?_, ?_, ?_⟩
    · intro v hv
      exact not_unboundAt_of_runAll hv x t hx.toUnboundAt
    · rintro y d ⟨hy, hraises⟩
      exact ⟨hx.operandFault hy hraises, hraises.run_eq .null⟩
    · intro hnone
      exact hx.run_eq hnone .null

/-- `x = -n + y`: with `n` bound to null, the negation comes before `y` and fails; with
nothing bound, `n` is the first. -/
theorem undefined_variable_law_negation :
    let n : Token := .sample .identifier "n"
    let y : Token := .sample .identifier "y"
    let minus : Token := .sample .additive "-"
    let sum : Expr := .binary .add (.sample .additive "+") (.negate minus (.name n)) (.name y)
    let p : Program := ⟨[], [⟨none, .sample .identifier "x", sum⟩]⟩
    let s : Scope := Scope.empty.declare "n" .null
    (FirstUnbound p.assignments s ⟨0, 2⟩ y ∧ Raises p.assignments s ⟨0, 1⟩ minus.notANumber ∧
      (p.run s).1 = .error minus.notANumber) ∧
    (FirstUnbound p.assignments .empty ⟨0, 0⟩ n ∧
      (p.run .empty).1 = .error (n.fault (.undefinedVariable "n"))) := by
  intro n y minus sum p s
  have hy : FirstUnbound p.assignments s ⟨0, 2⟩ y := by
    refine ⟨⟨⟨_, rfl, rfl⟩, rfl, fun a ha => by cases ha⟩, ?_⟩
    rintro ⟨i, k⟩ u hbefore ⟨⟨a, ha, hk⟩, hbound, -⟩
    obtain ⟨rfl, hlt⟩ : i = 0 ∧ k < 2 := by
      simp only [Site.Before] at hbefore
      omega
    obtain rfl := Option.some.inj ha
    match k, hlt, hk with
    | 0, _, hk =>
      obtain rfl := Node.name.inj (Option.some.inj hk)
      cases hbound
    | 1, _, hk => cases Option.some.inj hk
  have hn : FirstUnbound p.assignments .empty ⟨0, 0⟩ n := by
    refine ⟨⟨⟨_, rfl, rfl⟩, rfl, fun a ha => by cases ha⟩, ?_⟩
    rintro ⟨i, k⟩ u hbefore -
    simp only [Site.Before] at hbefore
    omega
  have hraises : Raises p.assignments s ⟨0, 1⟩ minus.notANumber :=
    .intro rfl rfl rfl (.zero p.assignments (fun _ => s) fun _ => .null) rfl rfl
  obtain ⟨-, hfault, -⟩ := (undefined_variable_law p s).2.2.2 _ _ hy
  obtain ⟨-, -, hend⟩ := (undefined_variable_law p .empty).2.2.2 _ _ hn
  refine ⟨⟨hy, hraises, (hfault ⟨0, 1⟩ _ ⟨.inr ⟨rfl, Nat.one_lt_two⟩, hraises⟩).2⟩, hn, hend ?_⟩
  intro z d hz
  simp only [Site.Before] at hz
  omega

end AssignLang
