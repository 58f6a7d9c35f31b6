/-
# Reading around a place

The tokens before a place in a program leave the reading where an operand must come,
with a frame for every sum that the place lies in, and the tokens after it close
these frames again. So what is read of the program depends on the place through one
expression only, which the innermost frame makes of the operand: `Slot.finish` for
the innermost sum, `Spot.finish` for the right side. Whatever primary fills the place,
and whatever tokens stand there instead, the rest is read alike.

Key definitions: `Phrase.value`, `Operation`, `Expr.extend`, `Front.frame`,
`Slot.finish`, `Spot.finish`, `Setting.Holds`.
Key theorems: `Reading.steps_added`, `Reading.steps_spot_before`,
`Reading.steps_spot_after`, `Setting.exists_holds`.
-/
import AssignLang.Proofs.Grammar.Slot
import AssignLang.Proofs.Reading.Completeness

namespace AssignLang

/-! ### Values

The expression of a phrase is defined only if its tokens are spelt; `Phrase.value` is
the same expression then, and some expression otherwise. -/

def Token.operator (t : Token) : BinaryOp := (BinaryOp.ofSymbol? t.text).getD .add

theorem Token.ofSymbol?_eq_operator {t : Token} {level : Level} (h : t.kind = level.sign)
    (ht : t.Spelt) : BinaryOp.ofSymbol? t.text = some t.operator := by
  obtain ⟨op, hop⟩ := (spelt_sign_iff h).mp ht
  rw [operator, hop]
  rfl

namespace Phrase

def value : {s : Symbol} → Phrase s → Expr
  | _, leaf t _ => (Expr.leaf? t).getD (.name t)
  | _, group _ _ body _ _ => body.value
  | _, single first => first.value
  | _, negated minus _ first => .negate minus first.value
  | _, more left sign _ right => .binary sign.operator sign left.value right.value

theorem value_eq : ∀ {s : Symbol} (p : Phrase s) {e : Expr}, p.expr? = some e → p.value = e
  | _, leaf t _, e, h => by
    have hleaf : Expr.leaf? t = some e := h
    rw [value, hleaf]
    rfl
  | _, group _ _ body _ _, e, h => value_eq body h
  | _, single first, e, h => value_eq first h
  | _, negated minus _ first, e, h => by
    obtain ⟨a, ha, rfl⟩ := Option.map_eq_some_iff.mp h
    rw [value, value_eq first ha]
  | _, more left sign _ right, e, h => by
    simp only [expr?, Option.bind_eq_some_iff, Option.map_eq_some_iff] at h
    obtain ⟨a, ha, op, hop, b, hb, rfl⟩ := h
    rw [value, value_eq left ha, value_eq right hb, Token.operator, hop]
    rfl

theorem expr?_eq_value {s : Symbol} {p : Phrase s} (h : ∀ t ∈ p.tokens, t.Spelt) :
    p.expr? = some p.value := by
  obtain ⟨e, he⟩ := Option.isSome_iff_exists.mp (p.isSome_expr?_iff.mpr h)
  rw [he, p.value_eq he]

end Phrase

/-- An operation with its right operand. -/
structure Operation where
  op : BinaryOp
  token : Token
  right : Expr

/-- The expression with more operands, one operation after the other. -/
def Expr.extend (e : Expr) (os : List Operation) : Expr :=
  os.foldl (fun e o => .binary o.op o.token e o.right) e

variable {level : Level}

def Added.operation (a : Added level) : Operation := ⟨a.sign.operator, a.sign, a.operand.value⟩

/-! ### Frames -/

namespace Frame

/-- The frame in which the operation waits. The chains that bind more are closed. -/
def wait (f : Frame) : Level → Pending → Frame
  | .power, w => { f with power := some w }
  | .product, w => { f with product := some w, power := none }
  | .sum, w => ⟨.sum w, none, none⟩

theorem await_eq_wait (f : Frame) (level : Level) (e : Expr) (op : BinaryOp) (t : Token) :
    f.await level e op t = f.wait level ⟨f.close e (.chain level), op, t⟩ := by
  cases level <;> rfl

theorem Keeps.wait_eq {f g : Frame} (h : f.Keeps g (.chain level)) (w : Pending) :
    g.wait level w = f.wait level w := by
  cases level with
  | power =>
    obtain ⟨hlead, hproduct⟩ := h
    simp only [wait, hlead, hproduct]
  | product =>
    have hlead : g.lead = f.lead := h
    simp only [wait, hlead]
  | sum => rfl

theorem Keeps.refl (f : Frame) (s : Symbol) : f.Keeps f s := by
  cases s with
  | primary => rfl
  | chain level =>
    cases level with
    | power => exact ⟨rfl, rfl⟩
    | product => rfl
    | sum => trivial

end Frame

/-- The frame after the tokens of a chain that lacks its last operand. -/
def Front.frame : {level : Level} → Front level → Frame → Frame
  | _, nothing, f => f
  | _, minus t _, _ => ⟨.minus t, none, none⟩
  | level, chain left sign _, f => f.wait level ⟨left.value, sign.operator, sign⟩

/-- An operand of the chain can begin there. -/
theorem Front.ready_frame (a : Front level) {f : Frame} (h : f.Ready (.chain level)) :
    (a.frame f).Ready level.operand := by
  cases a with
  | nothing => exact h.operand
  | minus t ht => exact ⟨rfl, rfl⟩
  | chain left sign hs =>
    cases level with
    | power => trivial
    | product => rfl
    | sum => exact ⟨rfl, rfl⟩

namespace Slot

/-- The frame in which the primary is read. -/
def frame (s : Slot) : Frame := s.operands.frame (s.factors.frame (s.terms.frame .empty))

/-- What the product becomes, up to the factor of the primary, if `e` is the operand in
the frame. -/
def product (s : Slot) (f : Frame) (e : Expr) : Expr :=
  closeOption f.product ((f.closePower e).extend (s.moreOperands.map Added.operation))

/-- What the sum becomes. -/
def finish (s : Slot) (f : Frame) (e : Expr) : Expr :=
  (f.lead.close ((s.product f e).extend (s.moreFactors.map Added.operation))).extend
    (s.moreTerms.map Added.operation)

end Slot

namespace Spot

/-- The frames around the brackets that the innermost slot lies in. -/
def outers : Spot → List Frame → List Frame
  | whole _, outer => outer
  | nested s _ _ inner _ _, outer => inner.outers (s.frame :: outer)

/-- What the right side becomes if `e` is the operand in the frame of the innermost
slot. -/
def finish : Spot → Frame → Expr → Expr
  | whole s, f, e => s.finish f e
  | nested outer _ _ inner _ _, f, e => outer.finish outer.frame (inner.finish f e)

end Spot

namespace Reading

variable {ds : Array Definition} {as : Array Assignment} {head : Head} {outer : List Frame}

/-! ### Before the place -/

theorem steps_front (a : Front level) (ha : ∀ t ∈ a.tokens, t.Spelt) {f : Frame}
    (hf : f.Ready (.chain level)) :
    steps ⟨ds, as, .operand head f outer⟩ a.tokens = .ok ⟨ds, as, .operand head (a.frame f) outer⟩ := by
  cases a with
  | nothing => rfl
  | minus t ht =>
    obtain rfl : f = .empty := hf
    rw [Front.tokens, steps_singleton]
    exact (Next.minus ht).step_eq
  | chain left sign hs =>
    obtain ⟨hleft, hsign⟩ := List.forall_mem_append.mp ha
    obtain ⟨g, b, hsteps, hkeeps, hclose⟩ :=
      steps_phrase ds as head left f outer (Phrase.expr?_eq_value hleft) hf
    have hop := Token.ofSymbol?_eq_operator hs (hsign sign List.mem_cons_self)
    rw [Front.tokens, steps_append_of_ok hsteps, steps_singleton,
      (Next.sign (Kind.level?_eq_some_iff.mpr hs) hop).step_eq, Frame.await_eq_wait, hclose,
      hkeeps.wait_eq]
    rfl

theorem steps_slot_before (s : Slot) (hs : ∀ t ∈ s.before, t.Spelt) :
    steps ⟨ds, as, .operand head .empty outer⟩ s.before =
      .ok ⟨ds, as, .operand head s.frame outer⟩ := by
  obtain ⟨hrest, hoperands⟩ := List.forall_mem_append.mp hs
  obtain ⟨hterms, hfactors⟩ := List.forall_mem_append.mp hrest
  have hproduct := s.terms.ready_frame (f := .empty) rfl
  have hpower := s.factors.ready_frame hproduct
  rw [Slot.before, List.append_assoc, steps_append_of_ok (steps_front s.terms hterms rfl),
    steps_append_of_ok (steps_front s.factors hfactors hproduct)]
  exact steps_front s.operands hoperands hpower

theorem steps_spot_before : ∀ (s : Spot) {outer : List Frame}, (∀ t ∈ s.before, t.Spelt) →
    steps ⟨ds, as, .operand head .empty outer⟩ s.before =
      .ok ⟨ds, as, .operand head s.slot.frame (s.outers outer)⟩
  | .whole s, _, h => steps_slot_before s h
  | .nested s opening ho inner _ _, outer, h => by
    obtain ⟨hs, hrest⟩ := List.forall_mem_append.mp h
    rw [Spot.before, steps_append_of_ok (steps_slot_before s hs),
      steps_cons_of_ok (Next.opening (Kind.isOpening_iff.mpr ho)).step_eq]
    exact steps_spot_before inner (List.forall_mem_cons.mp hrest).2

/-! ### After the place -/

/-- The operands that follow one another are added to the chain that the frame closes. -/
theorem steps_added : ∀ (added : List (Added level)) (f : Frame) (e : Expr),
    (∀ t ∈ Added.allTokens added, t.Spelt) → ∃ g b,
      steps ⟨ds, as, .operator head f outer e⟩ (Added.allTokens added) =
        .ok ⟨ds, as, .operator head g outer b⟩ ∧ f.Keeps g (.chain level) ∧
      g.close b (.chain level) = (f.close e (.chain level)).extend (added.map Added.operation)
  | [], f, e, _ => ⟨f, e, rfl, Frame.Keeps.refl f _, rfl⟩
  | a :: added, f, e, h => by
    have hsplit : ∀ t ∈ a.tokens ++ Added.allTokens added, t.Spelt := h
    obtain ⟨ha, hadded⟩ := List.forall_mem_append.mp hsplit
    obtain ⟨hsign, hoperand⟩ := List.forall_mem_cons.mp ha
    have hop := Token.ofSymbol?_eq_operator a.sign_kind hsign
    obtain ⟨g, b, hsteps, hkeeps, hclose⟩ := steps_phrase ds as head a.operand _ outer
      (Phrase.expr?_eq_value hoperand) (f.ready_await level e a.sign.operator a.sign)
    obtain ⟨hfirst, hchain⟩ := hkeeps.more b
    obtain ⟨g', b', hsteps', hkeeps', hclose'⟩ := steps_added added g b hadded
    refine ⟨g', b', ?_, hfirst.trans hkeeps', ?_⟩
    · show steps _ (a.sign :: a.operand.tokens ++ Added.allTokens added) = _
      rw [List.cons_append,
        steps_cons_of_ok (Next.sign (Kind.level?_eq_some_iff.mpr a.sign_kind) hop).step_eq,
        steps_append_of_ok hsteps, hsteps']
    · rw [hclose', hchain, hclose]
      rfl

theorem steps_slot_after (s : Slot) (f : Frame) (e : Expr) (hs : ∀ t ∈ s.after, t.Spelt) :
    ∃ g b, steps ⟨ds, as, .operator head f outer e⟩ s.after =
      .ok ⟨ds, as, .operator head g outer b⟩ ∧ g.closeSum b = s.finish f e := by
  obtain ⟨hrest, hterms⟩ := List.forall_mem_append.mp hs
  obtain ⟨hoperands, hfactors⟩ := List.forall_mem_append.mp hrest
  obtain ⟨f₁, e₁, h₁, ⟨hlead₁, hproduct₁⟩, hclose₁⟩ := steps_added s.moreOperands f e hoperands
  obtain ⟨f₂, e₂, h₂, hlead₂, hclose₂⟩ := steps_added s.moreFactors f₁ e₁ hfactors
  obtain ⟨f₃, e₃, h₃, -, hclose₃⟩ := steps_added s.moreTerms f₂ e₂ hterms
  refine ⟨f₃, e₃, ?_, ?_⟩
  · rw [Slot.after, List.append_assoc, steps_append_of_ok h₁, steps_append_of_ok h₂, h₃]
  · -- each level closes what the level below it has become
    have hpower : f₁.closePower e₁ = (f.closePower e).extend _ := hclose₁
    have hproduct : f₂.closeProduct e₂ = (f₁.closeProduct e₁).extend _ := hclose₂
    have hsum : f₃.closeSum e₃ = (f₂.closeSum e₂).extend _ := hclose₃
    have hlead : f₂.lead = f.lead := Eq.trans hlead₂ hlead₁
    rw [hsum, Frame.closeSum, hlead, hproduct, Frame.closeProduct, hproduct₁, hpower, Slot.finish,
      Slot.product]

theorem steps_spot_after : ∀ (s : Spot) (outer : List Frame) (f : Frame) (e : Expr),
    (∀ t ∈ s.after, t.Spelt) → ∃ g b,
      steps ⟨ds, as, .operator head f (s.outers outer) e⟩ s.after =
        .ok ⟨ds, as, .operator head g outer b⟩ ∧ g.closeSum b = s.finish f e
  | .whole s, _, f, e, h => steps_slot_after s f e h
  | .nested s _ _ inner closing hc, outer, f, e, h => by
    obtain ⟨hinner, hrest⟩ := List.forall_mem_append.mp h
    obtain ⟨g, b, hsteps, hclose⟩ := steps_spot_after inner (s.frame :: outer) f e hinner
    obtain ⟨g', b', hsteps', hclose'⟩ := @steps_slot_after ds as head outer s s.frame
      (g.closeSum b) (List.forall_mem_cons.mp hrest).2
    refine ⟨g', b', ?_, ?_⟩
    · rw [Spot.after, Spot.outers, steps_append_of_ok hsteps,
        steps_cons_of_ok (Next.closing (Kind.isClosing_iff.mpr hc)).step_eq, hsteps']
    · rw [hclose', hclose, Spot.finish]

/-! ### The rest of the program -/

theorem steps_headTokens (s : Setting) {expr : Phrase (.chain .sum)} {ds : List Definition}
    {as : List Assignment} {label : Option Literal} (hbody : s.body.program? = some ⟨ds, as⟩)
    (hlabel : (s.line expr).content.label? = some label) :
    start.steps s.headTokens =
      .ok ⟨ds.toArray, as.toArray, .operand ⟨label, s.target.1⟩ .empty []⟩ := by
  have htarget : steps ⟨ds.toArray, as.toArray, .line⟩ (s.labelTokens ++ [s.target.1]) =
      .ok ⟨ds.toArray, as.toArray, .target ⟨label, s.target.1⟩⟩ :=
    steps_target (s.line expr).content hlabel
  have htokens : s.headTokens = s.body.tokens ++ ((s.labelTokens ++ [s.target.1]) ++ [s.equals.1]) := by
    simp [Setting.headTokens]
  rw [htokens, steps_append_of_ok (steps_body hbody), steps_append_of_ok htarget, steps_singleton]
  exact (Next.equals s.equals.2).step_eq

theorem steps_tailTokens (s : Setting) {later : List Assignment}
    (hlater : AssignmentLine.assignments? s.later = some later) (f : Frame) (e : Expr) :
    steps ⟨ds, as, .operator head f [] e⟩ s.tailTokens =
      .ok ⟨ds, as.push ⟨head.label, head.target, f.closeSum e⟩ ++ later.toArray, .ended⟩ := by
  obtain ⟨t, w, hbreaks⟩ := List.exists_cons_of_ne_nil s.breaks_ne_nil
  have hkind : ∀ u ∈ t :: w, u.kind = .newline := hbreaks ▸ s.breaks_kind
  obtain ⟨ht, hw⟩ := List.forall_mem_cons.mp hkind
  have hlines := steps_lines (fun as => ⟨ds, as, .line⟩)
    (fun _ l _ hv => steps_assignment l hv) (as.push ⟨head.label, head.target, f.closeSum e⟩) hlater
  rw [Setting.tailTokens, hbreaks, List.cons_append, List.cons_append,
    steps_cons_of_ok (Next.assigned ht).step_eq, List.append_assoc,
    steps_append_of_ok (steps_blanks hw), steps_append_of_ok hlines, steps_singleton]
  exact (Next.ends s.closing.2).step_eq

end Reading

theorem AssignmentLine.exists_label {a : AssignmentLine} (h : ∀ t ∈ a.labelTokens, t.Spelt) :
    ∃ label, a.label? = some label := by
  unfold labelTokens at h
  unfold label?
  split at h
  · next l colon _ =>
    have hl := (Token.spelt_literalInt_iff l.2).mp (h l.1 List.mem_cons_self)
    obtain ⟨x, hx⟩ := Option.isSome_iff_exists.mp hl
    exact ⟨some x, by rw [hx]; rfl⟩
  · exact ⟨none, rfl⟩

/-- The tokens around the place are read to a program that depends on the right side
only: `p e` is the program whose assignment has the right side `e`. -/
structure Setting.Holds (s : Setting) (ds : Array Definition) (as : Array Assignment)
    (head : Head) (p : Expr → Program) : Prop where
  before : Reading.start.steps s.before =
    .ok ⟨ds, as, .operand head s.spot.slot.frame (s.spot.outers [])⟩
  after : ∀ f e, ∃ r,
    Reading.steps ⟨ds, as, .operator head f (s.spot.outers []) e⟩ s.after = .ok r ∧
      r.phase = .ended ∧ r.program = p (s.spot.finish f e)
  /-- The right side can be told from the program. -/
  injective : ∀ e e', p e = p e' → e = e'

/-- **The tokens around a place that is filled are read around it.** -/
theorem Setting.exists_holds (s : Setting) (p : Phrase .primary)
    (h : ∀ t ∈ (s.fill p).tokens, t.Spelt) : ∃ ds as head q, s.Holds ds as head q := by
  have hsplit : ∀ t ∈ s.before ++ p.tokens ++ s.after, t.Spelt := s.tokens_fill p ▸ h
  simp only [before, after, headTokens, tailTokens, List.forall_mem_append] at hsplit
  obtain ⟨⟨⟨⟨⟨hbody, hlabel⟩, -⟩, hspotBefore⟩, -⟩, hspotAfter, ⟨-, hlater⟩, hclosing⟩ := hsplit
  obtain ⟨⟨ds, as⟩, hprogram⟩ := Option.isSome_iff_exists.mp
    ((Derivation.isSome_program?_iff ⟨s.body, s.closing⟩).mpr
      (List.forall_mem_append.mpr ⟨hbody, hclosing⟩))
  obtain ⟨label, hlabel⟩ :=
    AssignmentLine.exists_label (a := (s.line (s.spot.fill p)).content) hlabel
  have hlaterSome : (AssignmentLine.assignments? s.later).isSome := isSome_mapM_iff.mpr fun l hl =>
    l.content.isSome_assignment?_iff.mpr (Line.spelt_allTokens_iff.mp hlater l hl)
  obtain ⟨later, hlater⟩ := Option.isSome_iff_exists.mp hlaterSome
  refine ⟨ds.toArray, as.toArray, ⟨label, s.target.1⟩,
    fun e => ⟨ds, as ++ ⟨label, s.target.1, e⟩ :: later⟩, ?_, fun f e => ?_, fun e e' he => ?_⟩
  · rw [before, Reading.steps_append_of_ok (Reading.steps_headTokens s hprogram hlabel)]
    exact Reading.steps_spot_before s.spot hspotBefore
  · obtain ⟨g, b, hspot, hclose⟩ := Reading.steps_spot_after s.spot [] f e hspotAfter
    refine ⟨⟨ds.toArray, as.toArray.push ⟨label, s.target.1, g.closeSum b⟩ ++ later.toArray,
      .ended⟩, ?_, rfl, ?_⟩
    · rw [after, Reading.steps_append_of_ok hspot, Reading.steps_tailTokens s hlater]
    · simp [Reading.program, hclose]
  · simpa using he

end AssignLang
