/-
# Two runs of the same outline

The outline of a program is what a run depends on: its shape, its operators and
the kinds and texts of its tokens, where of a numeral only the kind and the value
count. Two programs of one outline run alike in every scope: they leave the same
scope, and have the same value or diagnostics with the same cause at tokens with
the same number. Programs that agree but for the places of their tokens have one
outline, so layout has no influence on what a text does.

Key definitions: `Expr.outline`, `Program.outline`, `SameRun`.
Key theorems: `Expr.eval_corresponds`, `Program.run_corresponds`,
`layout_without_influence`.
-/
import AssignLang.Compile
import AssignLang.Proofs.Reading.Unplaced

namespace AssignLang

/-! ### Outlines -/

/-- The numeral by its kind and value. -/
def Literal.outline (l : Literal) : Literal := ⟨.sample l.token.kind "", l.value⟩

/-- The expression without places and spellings of numerals. -/
def Expr.outline : Expr → Expr
  | integer l => integer l.outline
  | real l => real l.outline
  | name t => name t.unplaced
  | negate t e => negate t.unplaced e.outline
  | binary op t l r => binary op t.unplaced l.outline r.outline

/-- The definition without places and spellings of numerals. -/
def Definition.outline : Definition → Definition
  | real keyword names => real keyword.unplaced (names.map Token.unplaced)
  | integer keyword literals => integer keyword.unplaced (literals.map Literal.outline)

/-- The assignment without places and spellings of numerals. -/
def Assignment.outline (a : Assignment) : Assignment :=
  ⟨a.label.map Literal.outline, a.target.unplaced, a.expr.outline⟩

/-- The program without places and spellings of numerals. -/
def Program.outline (p : Program) : Program :=
  ⟨p.definitions.map Definition.outline, p.assignments.map Assignment.outline⟩

theorem Expr.outline_unplaced (e : Expr) : (e.mapTokens Token.unplaced).outline = e.outline := by
  induction e with
  | integer l => rfl
  | real l => rfl
  | name t => rfl
  | negate t e ih =>
    rw [mapTokens, outline, ih]
    rfl
  | binary op t l r ihl ihr =>
    rw [mapTokens, outline, ihl, ihr]
    rfl

theorem Assignment.outline_unplaced (a : Assignment) :
    (a.mapTokens Token.unplaced).outline = a.outline := by
  rw [outline, mapTokens, Expr.outline_unplaced, Option.map_map]
  rfl

theorem Definition.outline_unplaced (d : Definition) :
    (d.mapTokens Token.unplaced).outline = d.outline := by
  cases d with
  | real keyword names =>
    rw [mapTokens, outline, List.map_map]
    rfl
  | integer keyword literals =>
    rw [mapTokens, outline, List.map_map]
    rfl

/-- The places are no part of the outline. -/
theorem Program.outline_unplaced (p : Program) : p.unplaced.outline = p.outline := by
  rw [outline, unplaced, mapTokens, List.map_map, List.map_map, outline]
  congr 1
  · exact List.map_congr_left fun d _ => d.outline_unplaced
  · exact List.map_congr_left fun a _ => a.outline_unplaced

theorem Expr.length_tokens_outline (e : Expr) : e.outline.tokens.length = e.tokens.length := by
  induction e with
  | integer l => rfl
  | real l => rfl
  | name t => rfl
  | negate t e ih => simp only [outline, tokens, List.length_cons, ih]
  | binary op t l r ihl ihr => simp only [outline, tokens, List.length_append, List.length_cons, ihl, ihr]

theorem Definition.length_tokens_outline (d : Definition) :
    d.outline.tokens.length = d.tokens.length := by
  cases d with
  | real keyword names => simp only [outline, tokens, List.length_cons, List.length_map]
  | integer keyword literals => simp only [outline, tokens, List.length_cons, List.length_map]

/-- Lists of one outline have as many tokens. -/
theorem length_flatMap_eq {α : Type} {outline : α → α} {tokens : α → List Token}
    (hlength : ∀ a, (tokens (outline a)).length = (tokens a).length) {as bs : List α}
    (h : as.map outline = bs.map outline) : (as.flatMap tokens).length = (bs.flatMap tokens).length := by
  have houtline : ∀ cs : List α,
      ((cs.map outline).flatMap tokens).length = (cs.flatMap tokens).length := by
    intro cs
    simp only [List.length_flatMap, List.map_map, Function.comp_def, hlength]
  rw [← houtline as, h, houtline bs]

theorem Assignment.length_tokens_outline (a : Assignment) :
    a.outline.tokens.length = a.tokens.length := by
  simp only [outline, tokens, List.length_append, List.length_cons, Option.length_toList,
    Option.isSome_map, Expr.length_tokens_outline]

/-! ### Results at the tokens of pairs -/

namespace Corresponds

variable {α β : Type} {E : α → α → Prop} {F : β → β → Prop} {pairs pairs' : List (Token × Token)}
  {x y : Except Diagnostic α}

theorem of_subset (h : Corresponds E pairs x y) (hsub : ∀ z ∈ pairs, z ∈ pairs') :
    Corresponds E pairs' x y := by
  cases h with
  | ok h => exact .ok h
  | error hz => exact .error (hsub _ hz)

/-- Two computations in a row. -/
theorem bind {k k' : α → Except Diagnostic β} (h : Corresponds E pairs x y)
    (hk : ∀ a b, E a b → Corresponds F pairs (k a) (k' b)) :
    Corresponds F pairs (x >>= k) (y >>= k') := by
  cases h with
  | ok h => exact hk _ _ h
  | error hz => exact .error hz

end Corresponds

/-! ### Operations -/

section
variable {pairs : List (Token × Token)} {z : Token × Token} (hz : z ∈ pairs)
include hz

theorem Value.asNumber_corresponds (v : Value) :
    Corresponds Eq pairs (v.asNumber z.1) (v.asNumber z.2) := by
  cases v with
  | number x => exact .ok rfl
  | null => exact .error hz

theorem Value.negate_corresponds (v : Value) :
    Corresponds Eq pairs (v.negate z.1) (v.negate z.2) :=
  (v.asNumber_corresponds hz).bind fun _ _ hxy => .ok (hxy ▸ rfl)

theorem BinaryOp.apply_corresponds (op : BinaryOp) (left right : Value) :
    Corresponds Eq pairs (op.apply z.1 left right) (op.apply z.2 left right) := by
  refine (left.asNumber_corresponds hz).bind ?_
  rintro x _ rfl
  refine (right.asNumber_corresponds hz).bind ?_
  rintro y _ rfl
  split
  · exact .error hz
  · exact .ok rfl

theorem Scope.read_corresponds (hsame : SameToken z) (s : Scope) :
    Corresponds Eq pairs (s.read z.1) (s.read z.2) := by
  have htext : z.1.text = z.2.text := (Token.unplaced_eq_iff.mp hsame).2
  rw [read, read, ← htext]
  cases s.lookup z.1.text with
  | some v => exact .ok rfl
  | none => exact .error hz

end

/-! ### Expressions -/

/-- **Expressions of one outline** have the same value, or diagnostics with the
same cause at tokens with the same number. -/
theorem Expr.eval_corresponds (s : Scope) (e : Expr) : ∀ {e' : Expr}, e.outline = e'.outline →
    Corresponds Eq (e.tokens.zip e'.tokens) (e.eval s) (e'.eval s) := by
  induction e with
  | integer l =>
    intro e' h
    cases e' with
    | integer l' =>
      simp only [outline, Literal.outline, integer.injEq, Literal.mk.injEq] at h
      exact .ok (congrArg Value.number h.2)
    | _ => cases h
  | real l =>
    intro e' h
    cases e' with
    | real l' =>
      simp only [outline, Literal.outline, real.injEq, Literal.mk.injEq] at h
      exact .ok (congrArg Value.number h.2)
    | _ => cases h
  | name t =>
    intro e' h
    cases e' with
    | name t' => exact s.read_corresponds (z := (t, t')) List.mem_cons_self (name.inj h)
    | _ => cases h
  | negate t e ih =>
    intro e' h
    cases e' with
    | negate t' e' =>
      obtain ⟨-, he⟩ := negate.inj h
      have hoperand := (ih he).of_subset fun z hz => List.mem_cons_of_mem (t, t') hz
      refine hoperand.bind ?_
      rintro v _ rfl
      exact v.negate_corresponds (z := (t, t')) List.mem_cons_self
    | _ => cases h
  | binary op t l r ihl ihr =>
    intro e' h
    cases e' with
    | binary op' t' l' r' =>
      obtain ⟨rfl, -, hl, hr⟩ := binary.inj h
      have hlength : l.tokens.length = l'.tokens.length := by
        rw [← l.length_tokens_outline, hl, l'.length_tokens_outline]
      have hzip : (binary op t l r).tokens.zip (binary op t' l' r').tokens =
          l.tokens.zip l'.tokens ++ (t, t') :: r.tokens.zip r'.tokens :=
        List.zip_append hlength
      rw [hzip]
      have hleft := (ihl hl).of_subset fun z hz =>
        List.mem_append_left ((t, t') :: r.tokens.zip r'.tokens) hz
      have hright := (ihr hr).of_subset fun z hz =>
        List.mem_append_right (l.tokens.zip l'.tokens) (List.mem_cons_of_mem (t, t') hz)
      refine hleft.bind ?_
      rintro x _ rfl
      refine hright.bind ?_
      rintro y _ rfl
      exact op.apply_corresponds (z := (t, t'))
        (List.mem_append_right _ List.mem_cons_self) x y
    | _ => cases h

/-! ### Runs -/

/-- Two runs that agree but for the tokens of their diagnostics, and leave the same
scope. -/
structure SameRun (pairs : List (Token × Token)) (x y : Except Diagnostic Value × Scope) : Prop where
  result : Corresponds Eq pairs x.1 y.1
  scope : x.2 = y.2

theorem SameRun.of_subset {pairs pairs' : List (Token × Token)}
    {x y : Except Diagnostic Value × Scope} (h : SameRun pairs x y)
    (hsub : ∀ z ∈ pairs, z ∈ pairs') : SameRun pairs' x y :=
  ⟨h.result.of_subset hsub, h.scope⟩

theorem Assignment.run_corresponds {a b : Assignment} (h : a.outline = b.outline) (s : Scope) :
    SameRun (a.expr.tokens.zip b.expr.tokens) (a.run s) (b.run s) := by
  obtain ⟨-, htarget, hexpr⟩ := Assignment.mk.inj h
  have htext := (Token.unplaced_eq_iff.mp htarget).2
  have heval := Expr.eval_corresponds s a.expr hexpr
  unfold run
  generalize a.expr.eval s = x at heval
  generalize b.expr.eval s = y at heval
  cases heval with
  | ok hxy =>
    subst hxy
    exact ⟨.ok rfl, by rw [htext]⟩
  | error hz => exact ⟨.error hz, rfl⟩

/-- The tokens with the same number in two assignments of one outline. -/
theorem Assignment.zip_tokens_cons {a b : Assignment} (h : a.outline = b.outline)
    (as bs : List Assignment) :
    ((a :: as).flatMap tokens).zip ((b :: bs).flatMap tokens) =
      a.tokens.zip b.tokens ++ (as.flatMap tokens).zip (bs.flatMap tokens) := by
  rw [List.flatMap_cons, List.flatMap_cons]
  apply List.zip_append
  rw [← a.length_tokens_outline, h, b.length_tokens_outline]

/-- The tokens of the expressions are among those of the assignments. -/
theorem Assignment.mem_zip_tokens {a b : Assignment} (h : a.outline = b.outline)
    {z : Token × Token} (hz : z ∈ a.expr.tokens.zip b.expr.tokens) : z ∈ a.tokens.zip b.tokens := by
  obtain ⟨hlabel, -, -⟩ := Assignment.mk.inj h
  have hlength : (a.label.map Literal.token).toList.length =
      (b.label.map Literal.token).toList.length := by
    have hsome := congrArg Option.isSome hlabel
    rw [Option.isSome_map, Option.isSome_map] at hsome
    rw [Option.length_toList, Option.length_toList, Option.isSome_map, Option.isSome_map, hsome]
  rw [tokens, tokens, List.zip_append hlength]
  exact List.mem_append_right _ (List.mem_cons_of_mem (a.target, b.target) hz)

/-- One assignment after the other; the first diagnostic ends both runs. -/
theorem Assignment.runAll_corresponds : ∀ (last : Value) {as bs : List Assignment} (s : Scope),
    as.map outline = bs.map outline →
      SameRun ((as.flatMap tokens).zip (bs.flatMap tokens)) (runAll last as s) (runAll last bs s)
  | _, [], [], _, _ => ⟨.ok rfl, rfl⟩
  | _, [], b :: bs, _, h => by cases h
  | _, a :: as, [], _, h => by cases h
  | last, a :: as, b :: bs, s, h => by
    obtain ⟨hab, hrest⟩ := List.cons.inj h
    have hrun := Assignment.run_corresponds hab s
    have hfirst : ∀ z ∈ a.expr.tokens.zip b.expr.tokens,
        z ∈ a.tokens.zip b.tokens ++ (as.flatMap tokens).zip (bs.flatMap tokens) :=
      fun z hz => List.mem_append_left _ (Assignment.mem_zip_tokens hab hz)
    rw [Assignment.zip_tokens_cons hab, runAll, runAll]
    rcases ha : a.run s with ⟨x, s'⟩
    rcases hb : b.run s with ⟨y, s''⟩
    rw [ha, hb] at hrun
    obtain ⟨hresult, hscope⟩ := hrun
    obtain rfl : s' = s'' := hscope
    cases hresult with
    | ok hxy =>
      subst hxy
      exact (runAll_corresponds _ s' hrest).of_subset fun z hz => List.mem_append_right _ hz
    | error hz => exact ⟨.error (hfirst _ hz), rfl⟩

/-- **Programs of one outline run alike.** -/
theorem Program.run_corresponds {p q : Program} (h : p.outline = q.outline) (s : Scope) :
    SameRun (p.tokens.zip q.tokens) (p.run s) (q.run s) := by
  obtain ⟨hdefinitions, hassignments⟩ := Program.mk.inj h
  have hlength := length_flatMap_eq Definition.length_tokens_outline hdefinitions
  rw [tokens, tokens, List.zip_append hlength]
  exact (Assignment.runAll_corresponds .null s hassignments).of_subset
    fun z hz => List.mem_append_right _ hz

/-- **Layout has no influence.** Two token lists that agree in kinds and texts are
read as programs that agree but for the places of the tokens, or refused with the
same cause at tokens with the same number, the added end being one of them. Two
programs that agree but for places run alike in every scope. -/
theorem layout_without_influence :
    (∀ ts us : List Token, ts.map Token.unplaced = us.map Token.unplaced →
      Corresponds (SameProgram (ts.zip us)) ((withEnd ts).zip (withEnd us)) (parse ts) (parse us)) ∧
    ∀ p q : Program, p.unplaced = q.unplaced → ∀ s,
      SameRun (p.tokens.zip q.tokens) (p.run s) (q.run s) := by
  refine ⟨fun ts us h => parse_corresponds h, fun p q h s => Program.run_corresponds ?_ s⟩
  rw [← p.outline_unplaced, h, q.outline_unplaced]

/-- The token moved elsewhere. -/
def Token.aside (t : Token) : Token :=
  { t with span := ⟨7, 9⟩, start := ⟨2, 3⟩, spaceBefore := true }

/-- The program `x = y`, with both tokens at no place. -/
def copying : Program :=
  ⟨[], [⟨none, .sample .identifier "x", .name (.sample .identifier "y")⟩]⟩

/-- The tokens of a text that is no program, moved elsewhere, and a program whose
tokens are moved elsewhere. -/
theorem layout_without_influence_aside :
    (missingOperand.map Token.unplaced = (missingOperand.map Token.aside).map Token.unplaced ∧
      Corresponds (SameProgram (missingOperand.zip (missingOperand.map Token.aside)))
        ((withEnd missingOperand).zip (withEnd (missingOperand.map Token.aside)))
        (parse missingOperand) (parse (missingOperand.map Token.aside))) ∧
    copying.unplaced = (copying.mapTokens Token.aside).unplaced ∧
      ∀ s, SameRun (copying.tokens.zip (copying.mapTokens Token.aside).tokens) (copying.run s)
        ((copying.mapTokens Token.aside).run s) :=
  ⟨⟨rfl, layout_without_influence.1 _ _ rfl⟩, rfl, layout_without_influence.2 _ _ rfl⟩

end AssignLang
