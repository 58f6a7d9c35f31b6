/-
# Reading looks at kinds and texts

A token that is replaced by one of the same kind and text is read in the same
way: the reading goes on or stops with the same cause, and holds the new token
where it would have held the old one. So a program that is read from tokens at
other places is the same program, with these tokens in it.

Key definitions: `KeepsLexeme`, `Program.mapTokens`, `Reading.mapTokens`.
Key theorems: `Reading.step_mapTokens`, `Reading.steps_mapTokens`,
`parse_mapTokens`.
-/
import AssignLang.Proofs.Reading.Passage

namespace AssignLang

/-- Tokens are replaced by tokens of the same kind and text. -/
def KeepsLexeme (f : Token → Token) : Prop := ∀ t, (f t).kind = t.kind ∧ (f t).text = t.text

/-! ### The tokens of what was read -/

section
variable (f : Token → Token)

/-- The literal with its token replaced. -/
def Literal.mapToken (l : Literal) : Literal := ⟨f l.token, l.value⟩

/-- The expression with its tokens replaced. -/
def Expr.mapTokens : Expr → Expr
  | integer l => integer (l.mapToken f)
  | real l => real (l.mapToken f)
  | name t => name (f t)
  | negate t e => negate (f t) e.mapTokens
  | binary op t l r => binary op (f t) l.mapTokens r.mapTokens

/-- The definition with its tokens replaced. -/
def Definition.mapTokens : Definition → Definition
  | real keyword names => real (f keyword) (names.map f)
  | integer keyword literals => integer (f keyword) (literals.map (Literal.mapToken f))

/-- The assignment with its tokens replaced. -/
def Assignment.mapTokens (a : Assignment) : Assignment :=
  ⟨a.label.map (Literal.mapToken f), f a.target, a.expr.mapTokens f⟩

/-- The program with its tokens replaced. -/
def Program.mapTokens (p : Program) : Program :=
  ⟨p.definitions.map (Definition.mapTokens f), p.assignments.map (Assignment.mapTokens f)⟩

def Pending.mapTokens (p : Pending) : Pending := ⟨p.left.mapTokens f, p.op, f p.token⟩

def Lead.mapTokens : Lead → Lead
  | nothing => nothing
  | minus t => minus (f t)
  | sum p => sum (p.mapTokens f)

def Frame.mapTokens (g : Frame) : Frame :=
  ⟨g.lead.mapTokens f, g.product.map (Pending.mapTokens f), g.power.map (Pending.mapTokens f)⟩

def Head.mapTokens (h : Head) : Head := ⟨h.label.map (Literal.mapToken f), f h.target⟩

def Phase.mapTokens : Phase → Phase
  | start => start
  | heading => heading
  | line => line
  | names keyword ns => names (f keyword) (ns.map f)
  | integers keyword ls => integers (f keyword) (ls.map (Literal.mapToken f))
  | label l => label (l.mapToken f)
  | labelled l => labelled (l.mapToken f)
  | target head => target (head.mapTokens f)
  | operand head g outer => operand (head.mapTokens f) (g.mapTokens f) (outer.map (Frame.mapTokens f))
  | operator head g outer e =>
    operator (head.mapTokens f) (g.mapTokens f) (outer.map (Frame.mapTokens f)) (e.mapTokens f)
  | ended => ended

/-- What was read, with its tokens replaced. -/
def Reading.mapTokens (r : Reading) : Reading :=
  ⟨r.definitions.map (Definition.mapTokens f), r.assignments.map (Assignment.mapTokens f),
    r.phase.mapTokens f⟩

end

/-! ### Frames -/

namespace Frame

variable (f : Token → Token) (g : Frame) (e : Expr)

theorem closeOption_mapTokens (o : Option Pending) :
    closeOption (o.map (Pending.mapTokens f)) (e.mapTokens f) = (closeOption o e).mapTokens f := by
  cases o <;> rfl

theorem closePower_mapTokens :
    (g.mapTokens f).closePower (e.mapTokens f) = (g.closePower e).mapTokens f :=
  closeOption_mapTokens f e g.power

theorem closeProduct_mapTokens :
    (g.mapTokens f).closeProduct (e.mapTokens f) = (g.closeProduct e).mapTokens f := by
  rw [closeProduct, closePower_mapTokens]
  exact closeOption_mapTokens f (g.closePower e) g.product

theorem closeSum_mapTokens :
    (g.mapTokens f).closeSum (e.mapTokens f) = (g.closeSum e).mapTokens f := by
  obtain ⟨lead, product, power⟩ := g
  rw [closeSum, closeProduct_mapTokens]
  cases lead <;> rfl

theorem await_mapTokens (level : Level) (op : BinaryOp) (t : Token) :
    (g.mapTokens f).await level (e.mapTokens f) op (f t) = (g.await level e op t).mapTokens f := by
  cases level with
  | power =>
    rw [await, closePower_mapTokens]
    rfl
  | product =>
    rw [await, closeProduct_mapTokens]
    rfl
  | sum =>
    rw [await, closeSum_mapTokens]
    rfl

theorem isEmpty_mapTokens : (g.mapTokens f).isEmpty = g.isEmpty := by
  obtain ⟨lead, product, power⟩ := g
  cases lead <;> cases product <;> cases power <;> rfl

end Frame

/-! ### Readings -/

theorem isEmpty_map {α β : Type} (g : α → β) (xs : Array α) : (xs.map g).isEmpty = xs.isEmpty := by
  rw [Array.isEmpty, Array.isEmpty, Array.size_map]

namespace Reading

variable {f : Token → Token}

theorem start_mapTokens : start.mapTokens f = start := by
  rw [mapTokens, start, Array.map_empty, Array.map_empty]
  rfl

theorem program_mapTokens (r : Reading) : (r.mapTokens f).program = r.program.mapTokens f := by
  simp only [program, mapTokens, Program.mapTokens, Array.toList_map]

theorem ite_mapTokens {x y x' y' : Except Cause Reading} {c c' : Prop} [Decidable c] [Decidable c']
    (hc : c' ↔ c) (hx : x' = x.map (mapTokens f)) (hy : y' = y.map (mapTokens f)) :
    (if c' then x' else y') = (if c then x else y).map (mapTokens f) := by
  by_cases h : c
  · rw [if_pos h, if_pos (hc.mpr h), hx]
  · rw [if_neg h, if_neg (fun h' => h (hc.mp h')), hy]

end Reading

/-! ### One step -/

section
variable {f : Token → Token} (hf : KeepsLexeme f)
include hf

theorem KeepsLexeme.display_eq (t : Token) : (f t).display = t.display := by
  rw [Token.display, Token.display, (hf t).1, (hf t).2]

/-- A line feed ends a definition that lists something. -/
theorem KeepsLexeme.newline_iff {α β : Type} (g : α → β) (xs : Array α) (t : Token) :
    (f t).kind = .newline ∧ ¬ (xs.map g).isEmpty = true ↔
      t.kind = .newline ∧ ¬ xs.isEmpty = true := by
  rw [(hf t).1, isEmpty_map]

/-- The reason that a token cannot come next depends on its kind and text. -/
theorem Phase.violation_mapTokens (p : Phase) (t : Token) :
    ((p.mapTokens f).violation (f t)).message = (p.violation t).message := by
  cases p with
  | heading =>
    unfold mapTokens violation
    rw [(hf t).1]
  | names keyword ns =>
    dsimp only [mapTokens, violation]
    rw [isEmpty_map]
  | integers keyword ls =>
    dsimp only [mapTokens, violation]
    rw [isEmpty_map]
  | operand head g outer =>
    show "Expected expression, got " ++ (f t).display = "Expected expression, got " ++ t.display
    rw [hf.display_eq]
  | operator head g outer e =>
    cases outer with
    | nil =>
      show (Violation.inLine (f t).kind).message = (Violation.inLine t.kind).message
      rw [(hf t).1]
    | cons h outer => rfl
  | _ => rfl

theorem Literal.ofToken_mapToken (sort : String) (t : Token) :
    Literal.ofToken sort (f t) = (Literal.ofToken sort t).map (Literal.mapToken f) := by
  rw [ofToken, ofToken, (hf t).2]
  cases Numeral.read t.text <;> rfl

namespace Reading

theorem reject_mapTokens (r : Reading) (t : Token) {α β : Type} (g : α → β) :
    (r.mapTokens f).reject (f t) = (r.reject t : Except Cause α).map g := by
  show Except.error _ = Except.error _
  rw [← r.phase.violation_mapTokens hf t]
  rfl

theorem ite_go_mapTokens (r : Reading) (t : Token) (phase : Phase) {c c' : Prop} [Decidable c]
    [Decidable c'] (hc : c' ↔ c) :
    (if c' then (r.mapTokens f).go (phase.mapTokens f) else (r.mapTokens f).reject (f t)) =
      (if c then r.go phase else r.reject t).map (mapTokens f) :=
  ite_mapTokens hc rfl (reject_mapTokens hf r t _)

theorem bind_literal_mapTokens (r : Reading) (t : Token) (sort : String) {next next' : Literal → Phase}
    (hnext : ∀ l, next' (l.mapToken f) = (next l).mapTokens f) :
    (Literal.ofToken sort (f t) >>= fun l => (r.mapTokens f).go (next' l)) =
      (Literal.ofToken sort t >>= fun l => r.go (next l)).map (mapTokens f) := by
  rw [Literal.ofToken_mapToken hf]
  cases Literal.ofToken sort t with
  | ok l =>
    show (r.mapTokens f).go (next' (l.mapToken f)) = _
    rw [hnext]
    rfl
  | error cause => rfl

theorem stepLine_mapTokens (r : Reading) (t : Token) :
    (r.mapTokens f).stepLine (f t) = (r.stepLine t).map (mapTokens f) := by
  have hempty : (r.mapTokens f).assignments.isEmpty = r.assignments.isEmpty := isEmpty_map _ _
  unfold stepLine
  rw [(hf t).1, hempty]
  cases t.kind with
  | newline => rfl
  | realWord =>
    have hgo := ite_go_mapTokens hf r t (.names t #[]) (c := r.assignments.isEmpty = true) Iff.rfl
    rw [Phase.mapTokens, Array.map_empty] at hgo
    exact hgo
  | integerWord =>
    have hgo := ite_go_mapTokens hf r t (.integers t #[]) (c := r.assignments.isEmpty = true) Iff.rfl
    rw [Phase.mapTokens, Array.map_empty] at hgo
    exact hgo
  | literalInt => exact bind_literal_mapTokens hf r t _ fun l => rfl
  | identifier => rfl
  | endWord => rfl
  | _ => exact reject_mapTokens hf r t _

theorem stepOperand_mapTokens (r : Reading) (head : Head) (g : Frame) (outer : List Frame)
    (t : Token) :
    (r.mapTokens f).stepOperand (head.mapTokens f) (g.mapTokens f) (outer.map (Frame.mapTokens f))
      (f t) = (r.stepOperand head g outer t).map (mapTokens f) := by
  unfold stepOperand
  rw [(hf t).1, (hf t).2, g.isEmpty_mapTokens]
  cases t.kind with
  | literalInt => exact bind_literal_mapTokens hf r t _ fun l => rfl
  | literalReal => exact bind_literal_mapTokens hf r t _ fun l => rfl
  | identifier => rfl
  | additive =>
    exact ite_go_mapTokens hf r t (.operand head ⟨.minus t, none, none⟩ outer)
      (c := t.text = "-" ∧ g.isEmpty = true) Iff.rfl
  | parenLeft => rfl
  | bracketLeft => rfl
  | _ => exact reject_mapTokens hf r t _

theorem stepClose_mapTokens (r : Reading) (head : Head) (g : Frame) (outer : List Frame) (e : Expr)
    (t : Token) :
    (r.mapTokens f).stepClose (head.mapTokens f) (g.mapTokens f) (outer.map (Frame.mapTokens f))
      (e.mapTokens f) (f t) = (r.stepClose head g outer e t).map (mapTokens f) := by
  cases outer with
  | nil =>
    unfold stepClose
    rw [List.map_nil, (hf t).1]
    by_cases hk : t.kind = .newline
    · rw [if_pos hk, if_pos hk]
      simp only [assign, mapTokens, Except.map, Array.map_push, Assignment.mapTokens, Head.mapTokens,
        Phase.mapTokens, g.closeSum_mapTokens]
    · rw [if_neg hk, if_neg hk]
      exact reject_mapTokens hf r t _
  | cons next outer =>
    unfold stepClose
    rw [List.map_cons, (hf t).1, g.closeSum_mapTokens]
    exact ite_go_mapTokens hf r t (.operator head next outer (g.closeSum e)) Iff.rfl

theorem stepOperator_mapTokens (r : Reading) (head : Head) (g : Frame) (outer : List Frame)
    (e : Expr) (t : Token) :
    (r.mapTokens f).stepOperator (head.mapTokens f) (g.mapTokens f)
      (outer.map (Frame.mapTokens f)) (e.mapTokens f) (f t) =
      (r.stepOperator head g outer e t).map (mapTokens f) := by
  unfold stepOperator
  rw [(hf t).1, (hf t).2]
  cases t.kind.level? with
  | none => exact stepClose_mapTokens hf r head g outer e t
  | some level =>
    cases BinaryOp.ofSymbol? t.text with
    | none => rfl
    | some op =>
      show (r.mapTokens f).go _ = _
      rw [g.await_mapTokens]
      rfl

/-- **A token of the same kind and text is read in the same way.** -/
theorem step_mapTokens (r : Reading) (t : Token) :
    (r.mapTokens f).step (f t) = (r.step t).map (mapTokens f) := by
  obtain ⟨ds, as, phase⟩ := r
  have hkind : ∀ k, (f t).kind = k ↔ t.kind = k := fun k => by rw [(hf t).1]
  cases phase with
  | start => exact ite_go_mapTokens hf ⟨ds, as, .start⟩ t .heading (hkind _)
  | heading => exact ite_go_mapTokens hf ⟨ds, as, .heading⟩ t .line (hkind _)
  | line => exact stepLine_mapTokens hf ⟨ds, as, .line⟩ t
  | names keyword ns =>
    refine ite_mapTokens (hkind _) ?_ (ite_mapTokens (hf.newline_iff _ _ t) ?_ (reject_mapTokens hf _ t _))
    · rw [← Array.map_push]
      rfl
    · simp only [define, mapTokens, Except.map, Array.map_push, Array.toList_map,
        Definition.mapTokens, Phase.mapTokens]
  | integers keyword ls =>
    refine ite_mapTokens (hkind _) ?_ (ite_mapTokens (hf.newline_iff _ _ t) ?_ (reject_mapTokens hf _ t _))
    · refine bind_literal_mapTokens hf ⟨ds, as, .integers keyword ls⟩ t _ fun l => ?_
      rw [Phase.mapTokens, Array.map_push]
    · simp only [define, mapTokens, Except.map, Array.map_push, Array.toList_map,
        Definition.mapTokens, Phase.mapTokens]
  | label l => exact ite_go_mapTokens hf ⟨ds, as, .label l⟩ t (.labelled l) (hkind _)
  | labelled l => exact ite_go_mapTokens hf ⟨ds, as, .labelled l⟩ t (.target ⟨some l, t⟩) (hkind _)
  | target head =>
    exact ite_go_mapTokens hf ⟨ds, as, .target head⟩ t (.operand head .empty []) (hkind _)
  | operand head g outer => exact stepOperand_mapTokens hf ⟨ds, as, _⟩ head g outer t
  | operator head g outer e => exact stepOperator_mapTokens hf ⟨ds, as, _⟩ head g outer e t
  | ended => exact reject_mapTokens hf ⟨ds, as, .ended⟩ t _

/-- **Reading looks at kinds and texts.** -/
theorem steps_mapTokens : ∀ (w : List Token) (r : Reading),
    (r.mapTokens f).steps (w.map f) = (r.steps w).map (mapTokens f)
  | [], _ => rfl
  | t :: w, r => by
    have hstep := step_mapTokens hf r t
    rw [List.map_cons]
    cases hs : r.step t with
    | ok r' =>
      rw [hs] at hstep
      rw [steps_cons_of_ok hs, steps_cons_of_ok hstep]
      exact steps_mapTokens w r'
    | error cause =>
      rw [hs] at hstep
      rw [steps_cons_of_error hs, steps_cons_of_error hstep]
      rfl

end Reading

/-! ### Whole texts -/

theorem beforeEnd_map (ts : List Token) : beforeEnd (ts.map f) = (beforeEnd ts).map f := by
  rw [beforeEnd, beforeEnd, List.takeWhile_map]
  congr 2
  funext t
  rw [Function.comp_apply, (hf t).1]

/-- **A program is read from tokens at other places**, with these tokens in it. -/
theorem parse_mapTokens {ts : List Token} {p : Program} (h : parse ts = .ok p) :
    parse (ts.map f) = .ok (p.mapTokens f) := by
  obtain ⟨r, hsteps, hended, rfl⟩ := parse_eq_ok_iff.mp h
  have hmoved := Reading.steps_mapTokens hf (beforeEnd ts) Reading.start
  rw [hsteps, ← beforeEnd_map hf, Reading.start_mapTokens] at hmoved
  refine parse_eq_ok_iff.mpr ⟨r.mapTokens f, hmoved, ?_, (Reading.program_mapTokens r).symm⟩
  rw [Reading.mapTokens, hended]
  rfl

end

end AssignLang
