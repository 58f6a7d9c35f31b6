/-
# Which brackets matter

What stands between two brackets is a primary, a power, a product or a sum, after the
sign that is carried out last. Without the brackets the reading goes on in the frame
around them and not in one of its own (`Frame.Absorbs`): the chains that the content
begins with join those that wait in the frame, and what follows the brackets joins the
last operand of the content. The program stays the same if and only if nothing waits
in the chains up to the level of the content, and nothing that binds more than its
sign follows (`Slot.Spares`). The reason that nothing else will do is a length: the
last operation of the sum has a shorter right operand without the brackets than with
them.

Tokens without the brackets are a program at all unless the content begins with a minus
sign that then is not the first token of a sum.

Key definitions: `Phrase.level?`, `Slot.Spares`, `BracketPair`, `Frame.Absorbs`.
Key theorems: `Reading.steps_absorbs`, `Slot.finish_eq_iff`, `BracketPair.parse_removed`,
`brackets_spared_iff`.
-/
import AssignLang.Proofs.Reading.Around
import AssignLang.Proofs.Reading.Language

namespace AssignLang

/-! ### The content -/

namespace Phrase

/-- The level of the sign that is carried out last; a minus sign is one of a sum. A
primary has none. -/
def level? : {s : Symbol} → Phrase s → Option Level
  | _, leaf _ _ => none
  | _, group _ _ _ _ _ => none
  | _, single first => first.level?
  | _, negated _ _ _ => some .sum
  | _, @more level _ _ _ _ => some level

/-- The minus sign that a phrase begins with. -/
def minus? : {s : Symbol} → Phrase s → Option Token
  | _, leaf _ _ => none
  | _, group _ _ _ _ _ => none
  | _, single first => first.minus?
  | _, negated minus _ _ => some minus
  | _, more left _ _ _ => left.minus?

/-- Only a sum begins with a minus sign. -/
theorem minus?_eq_none : ∀ {s : Symbol} (p : Phrase s), s ≠ .chain .sum → p.minus? = none
  | _, leaf _ _, _ => rfl
  | _, group _ _ _ _ _, _ => rfl
  | _, @single level first, _ => minus?_eq_none first (by cases level <;> simp)
  | _, negated _ _ _, h => absurd rfl h
  | _, more left _ _ _, h => minus?_eq_none left h

theorem level?_of_minus {p : Phrase (.chain .sum)} (h : p.minus? ≠ none) :
    p.level? = some .sum := by
  cases p with
  | single first => exact absurd (first.minus?_eq_none (by simp)) h
  | negated minus hm first => rfl
  | more left sign hs right => rfl

theorem exists_of_minus : ∀ {s : Symbol} (p : Phrase s) {m : Token}, p.minus? = some m →
    ∃ w, p.tokens = m :: w ∧ m.kind = .additive
  | _, leaf _ _, _, h => by cases h
  | _, group _ _ _ _ _, _, h => by cases h
  | _, single first, _, h => exists_of_minus first h
  | _, negated minus hm first, m, h => by
    obtain rfl : minus = m := Option.some.inj h
    exact ⟨first.tokens, rfl, hm.1⟩
  | _, more left sign hs right, m, h => by
    obtain ⟨w, hw, hm⟩ := exists_of_minus left h
    exact ⟨w ++ sign :: right.tokens, by rw [tokens, hw]; rfl, hm⟩

end Phrase

/-- The slot does without brackets around a content of the level. -/
def Slot.Spares (s : Slot) : Option Level → Prop
  | none => True
  | some .power => s.operands = .nothing
  | some .product => s.operands = .nothing ∧ s.moreOperands = [] ∧ s.factors = .nothing
  | some .sum => s.operands = .nothing ∧ s.moreOperands = [] ∧ s.factors = .nothing ∧
      s.moreFactors = [] ∧ s.terms = .nothing

/-! ### Lengths -/

namespace Expr

def size (e : Expr) : Nat := e.postOrder.length

/-- The size of the last operand of the operation that is carried out last. -/
def lastSize : Expr → Nat
  | negate _ e => e.size
  | binary _ _ _ r => r.size
  | _ => 0

/-- What the operands that follow one another add to the size. -/
def added : List Operation → Nat
  | [] => 0
  | o :: os => o.right.size + 1 + added os

theorem added_concat (os : List Operation) (o : Operation) :
    added (os ++ [o]) = added os + (o.right.size + 1) := by
  induction os with
  | nil => exact Nat.add_comm _ 0
  | cons p os ih =>
    rw [List.cons_append, added, added, ih]
    omega

theorem size_negate (t : Token) (e : Expr) : (negate t e).size = e.size + 1 := by
  simp [size, postOrder]

theorem size_binary (op : BinaryOp) (t : Token) (l r : Expr) :
    (binary op t l r).size = l.size + r.size + 1 := by
  simp [size, postOrder, Nat.add_assoc]

theorem extend_concat (e : Expr) (os : List Operation) (o : Operation) :
    e.extend (os ++ [o]) = .binary o.op o.token (e.extend os) o.right := by
  simp [extend]

theorem size_extend (e : Expr) (os : List Operation) : (e.extend os).size = e.size + added os := by
  induction os generalizing e with
  | nil => rfl
  | cons o os ih =>
    have hfirst := size_binary o.op o.token e o.right
    have hrest := ih (.binary o.op o.token e o.right)
    rw [extend, List.foldl_cons, ← extend, added]
    omega

/-- The last of the operands that follow is shorter than all of them. -/
theorem eq_nil_of_added_le {e : Expr} {os : List Operation}
    (h : added os ≤ (e.extend os).lastSize) : os = [] := by
  rcases List.eq_nil_or_concat os with rfl | ⟨os, o, rfl⟩
  · rfl
  · rw [List.concat_eq_append, added_concat, extend_concat, lastSize] at h
    omega

theorem extend_injective {e e' : Expr} {os : List Operation} (h : e.extend os = e'.extend os) :
    e = e' := by
  induction os generalizing e e' with
  | nil => exact h
  | cons o os ih =>
    have hfirst := ih h
    injection hfirst

end Expr

theorem size_closeOption_extend (o : Option Pending) (e : Expr) (os : List Operation) :
    (closeOption o (e.extend os)).size = (closeOption o e).size + Expr.added os := by
  cases o with
  | none => exact Expr.size_extend e os
  | some w =>
    simp only [closeOption, Pending.close, Expr.size_binary, Expr.size_extend]
    omega

theorem size_le_closeOption (o : Option Pending) (e : Expr) : e.size ≤ (closeOption o e).size := by
  cases o with
  | none => exact Nat.le_refl _
  | some w =>
    simp only [closeOption, Pending.close, Expr.size_binary]
    omega

theorem lastSize_closeOption {o : Option Pending} (h : o ≠ none) (e : Expr) :
    (closeOption o e).lastSize = e.size := by
  cases o with
  | none => exact absurd rfl h
  | some w => rfl

theorem lastSize_close {lead : Lead} (h : lead ≠ .nothing) (e : Expr) :
    (lead.close e).lastSize = e.size := by
  cases lead with
  | nothing => exact absurd rfl h
  | minus t => rfl
  | sum w => rfl

theorem closeOption_injective {o : Option Pending} {e e' : Expr}
    (h : closeOption o e = closeOption o e') : e = e' := by
  cases o with
  | none => exact h
  | some w => injection h

theorem Lead.close_injective {lead : Lead} {e e' : Expr} (h : lead.close e = lead.close e') :
    e = e' := by
  cases lead with
  | nothing => exact h
  | minus t => injection h
  | sum w => injection h

/-- A product whose last operand is shorter than `e` with the operands after it is `e`
alone. -/
theorem eq_none_of_lastSize {product power : Option Pending} {e : Expr} {os : List Operation}
    {n : Nat} (h : (closeOption product ((closeOption power e).extend os)).lastSize = n + Expr.added os)
    (hn : n < e.size) : product = none ∧ os = [] ∧ power = none := by
  have hle := size_le_closeOption power e
  have hproduct : product = none := by
    refine Classical.byContradiction fun hne => ?_
    rw [lastSize_closeOption hne, Expr.size_extend] at h
    omega
  subst hproduct
  have hos : os = [] := Expr.eq_nil_of_added_le (e := closeOption power e) (by
    rw [closeOption] at h
    omega)
  subst hos
  refine ⟨rfl, rfl, Classical.byContradiction fun hne => ?_⟩
  have hlast : (closeOption power e).lastSize = n := h
  rw [lastSize_closeOption hne] at hlast
  omega

/-! ### Reading without brackets -/

namespace Frame

/-- An operation of the level waits. -/
def Waits (g : Frame) : Level → Prop
  | .power => g.power ≠ none
  | .product => g.product ≠ none
  | .sum => g.lead ≠ .nothing

/-- In the frame `f` a phrase of the expression `e` was read, and `b` is its last
operand: what waits then if the last sign of the phrase has the level. -/
def Absorbs (f g : Frame) (b e : Expr) : Option Level → Prop
  | none => g = f ∧ b = e
  | some level => f.Keeps g (.chain level) ∧ g.Waits level ∧
      (g.close b level.operand).size < e.size ∧
      (f.Ready (.chain level) → g.close b (.chain level) = e)

theorem Keeps.of_operand {f g : Frame} {level : Level} (h : f.Keeps g level.operand) :
    f.Keeps g (.chain level) := by
  cases level with
  | power =>
    obtain rfl : g = f := h
    exact ⟨rfl, rfl⟩
  | product => exact h.1
  | sum => trivial

theorem Keeps.waits {f g : Frame} {level : Level} {e : Expr} {op : BinaryOp} {t : Token}
    (h : (f.await level e op t).Keeps g level.operand) : g.Waits level := by
  cases level with
  | power =>
    obtain rfl : g = f.await .power e op t := h
    simp [Waits, await]
  | product =>
    have hproduct : g.product = some ⟨f.closeProduct e, op, t⟩ := h.2
    simp [Waits, hproduct]
  | sum =>
    have hlead : g.lead = .sum ⟨f.closeSum e, op, t⟩ := h
    simp [Waits, hlead]

end Frame

/-- **A phrase is read from every frame**, unless it begins with a minus sign and the
frame is not empty. -/
theorem Reading.steps_absorbs (ds : Array Definition) (as : Array Assignment) (head : Head)
    (outer : List Frame) : ∀ {s : Symbol} (p : Phrase s) (f : Frame), (∀ t ∈ p.tokens, t.Spelt) →
      p.minus? = none ∨ f = .empty → ∃ g b,
        steps ⟨ds, as, .operand head f outer⟩ p.tokens = .ok ⟨ds, as, .operator head g outer b⟩ ∧
        (f.Keeps g s ∧ (f.Ready s → g.close b s = p.value)) ∧ f.Absorbs g b p.value p.level?
  | _, .leaf t ht, f, h, _ => by
    obtain ⟨g, b, hsteps, rfl, hb⟩ :=
      steps_phrase ds as head (.leaf t ht) f outer (Phrase.expr?_eq_value h) trivial
    exact ⟨g, b, hsteps, ⟨rfl, fun _ => hb⟩, rfl, hb⟩
  | _, .group o ho body c hc, f, h, _ => by
    obtain ⟨g, b, hsteps, rfl, hb⟩ :=
      steps_phrase ds as head (.group o ho body c hc) f outer (Phrase.expr?_eq_value h) trivial
    exact ⟨g, b, hsteps, ⟨rfl, fun _ => hb⟩, rfl, hb⟩
  | _, .single first, f, h, hm => by
    obtain ⟨g, b, hsteps, ⟨hkeeps, hclose⟩, habsorbs⟩ := steps_absorbs ds as head outer first f h hm
    refine ⟨g, b, hsteps, ⟨hkeeps.of_operand, fun hready => ?_⟩, habsorbs⟩
    rw [(hkeeps.single hready b).2, hclose hready.operand]
    rfl
  | _, .negated minus hminus first, f, h, hm => by
    obtain rfl : f = .empty := hm.resolve_left (by simp [Phrase.minus?])
    obtain ⟨hsign, hfirst⟩ := List.forall_mem_cons.mp h
    obtain ⟨g, b, hsteps, hlead, hclose⟩ := steps_phrase ds as head first ⟨.minus minus, none, none⟩
      outer (Phrase.expr?_eq_value hfirst) ⟨rfl, rfl⟩
    have hvalue : g.closeSum b = .negate minus first.value := by
      rw [Frame.closeSum, show g.lead = .minus minus from hlead, ← hclose]
      rfl
    refine ⟨g, b, ?_, ⟨trivial, fun _ => hvalue⟩, trivial, ?_, ?_, fun _ => hvalue⟩
    · rw [Phrase.tokens, steps_cons_of_ok (Next.minus hminus).step_eq, hsteps]
    · rw [Frame.Waits, show g.lead = .minus minus from hlead]
      simp
    · rw [hclose, Phrase.value, Expr.size_negate]
      exact Nat.lt_succ_self _
  | _, @Phrase.more level left sign hs right, f, h, hm => by
    obtain ⟨hleft, hrest⟩ := List.forall_mem_append.mp h
    obtain ⟨hsign, hright⟩ := List.forall_mem_cons.mp hrest
    obtain ⟨f', e, hsteps, ⟨hkeeps, hclose⟩, -⟩ := steps_absorbs ds as head outer left f hleft hm
    obtain ⟨g, b, hsteps', hkeeps', hclose'⟩ := steps_phrase ds as head right _ outer
      (Phrase.expr?_eq_value hright) (f'.ready_await level e sign.operator sign)
    obtain ⟨hmore, hchain⟩ := hkeeps'.more b
    have hboth := hkeeps.trans hmore
    have hvalue : f.Ready (.chain level) →
        g.close b (.chain level) = (Phrase.more left sign hs right).value := by
      intro hready
      rw [hchain, hclose hready, hclose']
      rfl
    have hop := Token.ofSymbol?_eq_operator hs hsign
    refine ⟨g, b, ?_, ⟨hboth, hvalue⟩, hboth, hkeeps'.waits, ?_, hvalue⟩
    · rw [Phrase.tokens, steps_append_of_ok hsteps,
        steps_cons_of_ok (Next.sign (Kind.level?_eq_some_iff.mpr hs) hop).step_eq, hsteps']
    · rw [hclose', Phrase.value, Expr.size_binary]
      omega

/-- A minus sign is refused unless the frame is empty. -/
theorem Reading.not_next_of_minus {ds : Array Definition} {as : Array Assignment} {head : Head}
    {f : Frame} {outer : List Frame} {t : Token} {r : Reading} (ht : t.kind = .additive)
    (hf : f ≠ .empty) : ¬ Next ⟨ds, as, .operand head f outer⟩ t r := by
  intro h
  cases h with
  | leaf h => simp [Expr.leaf?, ht] at h
  | minus h => exact hf rfl
  | opening h => simp [ht, Kind.isOpening] at h

/-! ### The same sum -/

namespace Slot

variable {s : Slot}

theorem power_frame : s.frame.power = none ↔ s.operands = .nothing := by
  obtain ⟨terms, factors, operands, -, -, -⟩ := s
  cases operands <;> cases factors <;> cases terms <;>
    simp [frame, Front.frame, Frame.wait, Frame.empty]

theorem product_frame : s.frame.product = none ↔ s.factors = .nothing := by
  obtain ⟨terms, factors, operands, -, -, -⟩ := s
  cases operands <;> cases factors <;> cases terms <;>
    simp [frame, Front.frame, Frame.wait, Frame.empty]

theorem lead_frame : s.frame.lead = .nothing ↔ s.terms = .nothing := by
  obtain ⟨terms, factors, operands, -, -, -⟩ := s
  cases operands <;> cases factors <;> cases terms <;>
    simp [frame, Front.frame, Frame.wait, Frame.empty]

theorem frame_eq_empty : s.frame = .empty ↔
    s.terms = .nothing ∧ s.factors = .nothing ∧ s.operands = .nothing := by
  rw [← lead_frame, ← product_frame, ← power_frame]
  obtain ⟨lead, product, power⟩ := s.frame
  simp [Frame.empty]

theorem product_injective {f : Frame} {e e' : Expr} (h : s.product f e = s.product f e') :
    e = e' :=
  closeOption_injective (Expr.extend_injective (closeOption_injective h))

theorem finish_injective {f : Frame} {e e' : Expr} (h : s.finish f e = s.finish f e') : e = e' :=
  product_injective (Expr.extend_injective (Lead.close_injective (Expr.extend_injective h)))

/-- Frames that wait for the same sum make the same of the same products. -/
theorem finish_eq_iff_of_lead {f g : Frame} {b e : Expr} (h : g.lead = f.lead) :
    s.finish g b = s.finish f e ↔ s.product g b = s.product f e := by
  unfold finish
  rw [h]
  exact ⟨fun heq => Expr.extend_injective (Lead.close_injective (Expr.extend_injective heq)),
    fun heq => by rw [heq]⟩

/-- A power in the slot. -/
theorem finish_eq_iff_power {g : Frame} {b e : Expr} (h : s.frame.Absorbs g b e (some .power)) :
    s.finish g b = s.finish s.frame e ↔ s.operands = .nothing := by
  obtain ⟨⟨hlead, hproduct⟩, hwaits, hsize, hready⟩ := h
  rw [finish_eq_iff_of_lead hlead, product, product, hproduct, ← power_frame]
  constructor
  · intro heq
    have hpower := Expr.extend_injective (closeOption_injective heq)
    refine Classical.byContradiction fun hne => ?_
    have hlast := congrArg Expr.lastSize hpower
    rw [Frame.closePower, Frame.closePower, lastSize_closeOption hwaits,
      lastSize_closeOption hne] at hlast
    exact absurd hlast (Nat.ne_of_lt hsize)
  · intro hpower
    have hclose : g.closePower b = s.frame.closePower e := by
      rw [show g.closePower b = e from hready hpower, Frame.closePower, hpower, closeOption]
    rw [hclose]

theorem product_of_nothing {f : Frame} {e : Expr} (h : s.moreOperands = []) :
    s.product f e = f.closeProduct e := by
  rw [product, h]
  rfl

theorem lastSize_product {f : Frame} (h : f.product ≠ none) (e : Expr) :
    (s.product f e).lastSize =
      (f.closePower e).size + Expr.added (s.moreOperands.map Added.operation) := by
  rw [product, lastSize_closeOption h, Expr.size_extend]

theorem size_product (s : Slot) (f : Frame) (e : Expr) : (s.product f e).size =
    (f.closeProduct e).size + Expr.added (s.moreOperands.map Added.operation) :=
  size_closeOption_extend ..

/-- A product in the slot. -/
theorem finish_eq_iff_product {g : Frame} {b e : Expr}
    (h : s.frame.Absorbs g b e (some .product)) :
    s.finish g b = s.finish s.frame e ↔
      s.operands = .nothing ∧ s.moreOperands = [] ∧ s.factors = .nothing := by
  obtain ⟨hlead, hwaits, hsize, hready⟩ := h
  rw [finish_eq_iff_of_lead hlead, ← power_frame, ← product_frame]
  constructor
  · intro heq
    have hlast := lastSize_product (s := s) hwaits b
    rw [heq] at hlast
    obtain ⟨hproduct, hmore, hpower⟩ := eq_none_of_lastSize hlast hsize
    exact ⟨hpower, List.map_eq_nil_iff.mp hmore, hproduct⟩
  · rintro ⟨hpower, hmore, hproduct⟩
    have hclose : s.frame.closeProduct e = e := by
      rw [Frame.closeProduct, Frame.closePower, hproduct, hpower, closeOption, closeOption]
    rw [product_of_nothing hmore, product_of_nothing hmore, hclose]
    exact hready ⟨hproduct, hpower⟩

/-- A sum in the slot. -/
theorem finish_eq_iff_sum {g : Frame} {b e : Expr} (h : s.frame.Absorbs g b e (some .sum)) :
    s.finish g b = s.finish s.frame e ↔ s.operands = .nothing ∧ s.moreOperands = [] ∧
      s.factors = .nothing ∧ s.moreFactors = [] ∧ s.terms = .nothing := by
  obtain ⟨-, hwaits, hsize, hready⟩ := h
  have hsize : (g.closeProduct b).size < e.size := hsize
  rw [← power_frame, ← product_frame, ← lead_frame]
  constructor
  · intro heq
    have hsum := Expr.extend_injective heq
    have hlast := lastSize_close hwaits ((s.product g b).extend (s.moreFactors.map Added.operation))
    rw [hsum, Expr.size_extend, size_product] at hlast
    have hwhole : e.size ≤ (s.frame.closeProduct e).size :=
      Nat.le_trans (size_le_closeOption s.frame.power e) (size_le_closeOption s.frame.product _)
    -- nothing waits for the sum, or its right operand would be too long
    have hlead : s.frame.lead = .nothing := by
      refine Classical.byContradiction fun hne => ?_
      rw [lastSize_close hne, Expr.size_extend, size_product] at hlast
      omega
    rw [hlead, Lead.close] at hlast
    have hfactors : s.moreFactors.map Added.operation = [] :=
      Expr.eq_nil_of_added_le (e := s.product s.frame e) (by omega)
    rw [hfactors] at hlast
    obtain ⟨hproduct, hmore, hpower⟩ := eq_none_of_lastSize hlast hsize
    exact ⟨hpower, List.map_eq_nil_iff.mp hmore, hproduct, List.map_eq_nil_iff.mp hfactors, hlead⟩
  · rintro ⟨hpower, hmore, hproduct, hfactors, hlead⟩
    have hempty : s.frame = .empty :=
      frame_eq_empty.mpr ⟨lead_frame.mp hlead, product_frame.mp hproduct, power_frame.mp hpower⟩
    have hsum : g.closeSum b = s.frame.closeSum e := by
      rw [show g.closeSum b = e from hready hempty, hempty]
      rfl
    unfold finish
    rw [product_of_nothing hmore, product_of_nothing hmore, hfactors]
    exact congrArg (fun x => Expr.extend x _) hsum

/-- **The sum stays the same without the brackets** if and only if the slot does
without them. -/
theorem finish_eq_iff {g : Frame} {b e : Expr} {level : Option Level}
    (h : s.frame.Absorbs g b e level) :
    s.finish g b = s.finish s.frame e ↔ s.Spares level := by
  match level, h with
  | none, ⟨hg, hb⟩ => exact iff_of_true (by rw [hg, hb]) trivial
  | some .power, h => exact finish_eq_iff_power h
  | some .product, h => exact finish_eq_iff_product h
  | some .sum, h => exact finish_eq_iff_sum h

end Slot

/-- The right side can be told apart by the sum in the innermost slot. -/
theorem Spot.finish_eq_iff {f g : Frame} {b e : Expr} : ∀ (s : Spot),
    s.finish g b = s.finish f e ↔ s.slot.finish g b = s.slot.finish f e
  | whole s => Iff.rfl
  | nested outer _ _ inner _ _ => by
    rw [slot, ← finish_eq_iff inner, finish, finish]
    exact ⟨Slot.finish_injective, fun h => by rw [h]⟩

/-! ### The same program -/

section
variable {s : Setting} {ds : Array Definition} {as : Array Assignment} {head : Head}
  {q : Expr → Program} {ts x : List Token}

/-- Whatever is read in the place, the rest of the program is read around it. -/
theorem Setting.Holds.parse (h : s.Holds ds as head q)
    (hts : beforeEnd ts = s.before ++ x ++ s.after) {g : Frame} {b : Expr}
    (hx : Reading.steps ⟨ds, as, .operand head s.spot.slot.frame (s.spot.outers [])⟩ x =
      .ok ⟨ds, as, .operator head g (s.spot.outers []) b⟩) :
    parse ts = .ok (q (s.spot.finish g b)) := by
  obtain ⟨r, hr, hended, hprogram⟩ := h.after g b
  refine parse_eq_ok_iff.mpr ⟨r, ?_, hended, hprogram.symm⟩
  rw [hts, List.append_assoc, Reading.steps_append_of_ok h.before, Reading.steps_append_of_ok hx, hr]

/-- No program has a minus sign in the place of an operand that is not the first one. -/
theorem Setting.Holds.parse_ne_ok (h : s.Holds ds as head q) {m : Token} (hm : m.kind = .additive)
    (hts : beforeEnd ts = s.before ++ m :: x) (hframe : s.spot.slot.frame ≠ .empty)
    (p : Program) : AssignLang.parse ts ≠ .ok p := by
  intro hp
  obtain ⟨r, hr, -⟩ := parse_eq_ok_iff.mp hp
  rw [hts, Reading.steps_append_of_ok h.before] at hr
  cases hstep : Reading.step ⟨ds, as, .operand head s.spot.slot.frame (s.spot.outers [])⟩ m with
  | ok r' => exact Reading.not_next_of_minus hm hframe (Reading.next_of_step hstep)
  | error cause =>
    rw [Reading.steps_cons_of_error hstep] at hr
    cases hr

end

/-- A pair of brackets in the tokens of a program: what it stands in, and what stands
in it. -/
structure BracketPair (ts : List Token) where
  setting : Setting
  opening : Token
  opening_kind : opening.kind = .parenLeft ∨ opening.kind = .bracketLeft
  body : Phrase (.chain .sum)
  closing : Token
  closing_kind : closing.kind = .parenRight ∨ closing.kind = .bracketRight
  /-- The tokens after the pair, up to the last one. -/
  rest : List Token
  tokens_fill : (setting.fill (.group opening opening_kind body closing closing_kind)).tokens =
    beforeEnd ts
  tokens_eq : ts = setting.before ++ (opening :: body.tokens ++ [closing]) ++ rest

namespace BracketPair

variable {ts : List Token} {p : Program}

/-- The chains around the pair. -/
def slot (b : BracketPair ts) : Slot := b.setting.spot.slot

/-- The tokens without the two brackets. -/
def removed (b : BracketPair ts) : List Token := b.setting.before ++ b.body.tokens ++ b.rest

theorem beforeEnd_eq (b : BracketPair ts) : beforeEnd ts =
    b.setting.before ++ (b.opening :: b.body.tokens ++ [b.closing]) ++ b.setting.after := by
  rw [← b.tokens_fill, Setting.tokens_fill]
  rfl

theorem beforeEnd_removed (b : BracketPair ts) :
    beforeEnd b.removed = b.setting.before ++ b.body.tokens ++ b.setting.after := by
  have hvisible : ∀ t ∈ beforeEnd ts, t.kind ≠ .eof := fun t ht => by
    simpa using of_mem_takeWhile ht
  rw [b.beforeEnd_eq, List.forall_mem_append] at hvisible
  have hrest : beforeEnd b.rest = b.setting.after := by
    have hts := (congrArg beforeEnd b.tokens_eq).symm.trans b.beforeEnd_eq
    rw [beforeEnd_append hvisible.1] at hts
    exact List.append_cancel_left hts
  have hshort : ∀ t ∈ b.setting.before ++ b.body.tokens, t.kind ≠ .eof := fun t ht =>
    hvisible.1 t (by
      rcases List.mem_append.mp ht with ht | ht
      · exact List.mem_append_left _ ht
      · simp [ht])
  rw [removed, beforeEnd_append hshort, hrest]

/-- What was read with the brackets. -/
theorem exists_holds (b : BracketPair ts) (h : parse ts = .ok p) : ∃ ds as head q,
    b.setting.Holds ds as head q ∧ p = q (b.setting.spot.finish b.slot.frame b.body.value) := by
  have hspelt := spelt_of_parse h
  have hgroup : ∀ t ∈ b.opening :: b.body.tokens ++ [b.closing], t.Spelt := by
    rw [b.beforeEnd_eq, List.forall_mem_append, List.forall_mem_append] at hspelt
    exact hspelt.1.2
  obtain ⟨ds, as, head, q, hholds⟩ := b.setting.exists_holds _ (b.tokens_fill ▸ hspelt)
  obtain ⟨g, e, hsteps, rfl, rfl⟩ := Reading.steps_phrase ds as head
    (.group b.opening b.opening_kind b.body b.closing b.closing_kind) b.slot.frame
    (b.setting.spot.outers []) (Phrase.expr?_eq_value hgroup) trivial
  have hp := hholds.parse b.beforeEnd_eq hsteps
  rw [h] at hp
  exact ⟨ds, as, head, q, hholds, Except.ok.inj hp⟩

/-- **Without the brackets** the tokens are a program unless a minus sign comes where
none can; it is the same program if and only if the slot does without them. -/
theorem parse_removed (b : BracketPair ts) (h : parse ts = .ok p) :
    (parse b.removed = .ok p ↔ b.slot.Spares b.body.level?) ∧
    ((∃ q, parse b.removed = .ok q) ↔ b.body.minus? = none ∨ b.slot.frame = .empty) := by
  obtain ⟨ds, as, head, q, hholds, rfl⟩ := b.exists_holds h
  have hbody : ∀ t ∈ b.body.tokens, t.Spelt := fun t ht =>
    spelt_of_parse h t (by rw [b.beforeEnd_eq]; simp [ht])
  by_cases hm : b.body.minus? = none ∨ b.slot.frame = .empty
  · obtain ⟨g, e, hsteps, -, habsorbs⟩ := Reading.steps_absorbs ds as head
      (b.setting.spot.outers []) b.body b.slot.frame hbody hm
    have hremoved := hholds.parse b.beforeEnd_removed hsteps
    refine ⟨?_, iff_of_true ⟨_, hremoved⟩ hm⟩
    rw [hremoved, Except.ok.injEq, ← Slot.finish_eq_iff habsorbs]
    refine Iff.trans ?_ b.setting.spot.finish_eq_iff
    exact ⟨hholds.injective _ _, fun heq => by rw [heq]⟩
  · rw [not_or] at hm
    obtain ⟨m, hminus⟩ := Option.ne_none_iff_exists'.mp hm.1
    obtain ⟨w, hw, hkind⟩ := b.body.exists_of_minus hminus
    have hrefused : ∀ q, parse b.removed ≠ .ok q := hholds.parse_ne_ok (x := w ++ b.setting.after)
      hkind (by rw [b.beforeEnd_removed, hw]; simp) hm.2
    have hsum := Phrase.level?_of_minus hm.1
    refine ⟨iff_of_false (hrefused _) ?_, iff_of_false (fun ⟨q, hq⟩ => hrefused q hq) (by simp [hm])⟩
    rw [hsum]
    rintro ⟨hoperands, -, hfactors, -, hterms⟩
    exact hm.2 (Slot.frame_eq_empty.mpr ⟨hterms, hfactors, hoperands⟩)

/-- Every opening bracket before the end of the text belongs to a pair. -/
theorem exists_of_opening (h : parse ts = .ok p) {u v : List Token} {o : Token}
    (hts : ts = u ++ o :: v) (hu : ∀ t ∈ u, t.kind ≠ .eof) (ho : o.kind.isOpening = true) :
    ∃ b : BracketPair ts, b.setting.before = u ∧ b.opening = o := by
  obtain ⟨d, hd, -⟩ := parse_eq_ok_iff_derivation.mp h
  have hkind : o.kind ≠ .eof := by
    intro hk
    rw [hk] at ho
    cases ho
  have hbefore : beforeEnd ts = u ++ o :: beforeEnd v := by
    rw [hts, beforeEnd_append hu]
    simp [beforeEnd, hkind]
  obtain ⟨s, q, ⟨hopening, body, closing, hclosing, rfl⟩, rfl, rfl⟩ :=
    Derivation.exists_setting ho (hd.trans hbefore)
  have htokens : beforeEnd ts = s.before ++ (o :: body.tokens ++ [closing]) ++ s.after :=
    hd.symm.trans (s.tokens_fill _)
  have hsplit : ts = beforeEnd ts ++ ts.dropWhile fun t => t.kind != .eof :=
    List.takeWhile_append_dropWhile.symm
  refine ⟨⟨s, o, hopening, body, closing, hclosing, s.after ++ ts.dropWhile fun t => t.kind != .eof,
    hd, ?_⟩, rfl, rfl⟩
  rw [← List.append_assoc, ← htokens]
  exact hsplit

end BracketPair

/-- **Which brackets matter**: every opening bracket of a program belongs to a pair, and
the tokens without a pair are the same program if and only if the content is a primary;
or a power, and the pair is the first operand of its power; or a product, and the pair
is the only operand of its power, which is the first factor of its product; or a sum,
and the pair is the whole first term of its sum, which has no minus sign before it.
Otherwise they are another program, or none if a minus sign would not be the first
token of its sum. -/
theorem brackets_spared_iff {ts : List Token} {p : Program} (h : parse ts = .ok p) :
    (∀ u o v, ts = u ++ o :: v ∧ (∀ t ∈ u, t.kind ≠ .eof) ∧ o.kind.isOpening = true →
      ∃ b : BracketPair ts, b.setting.before = u ∧ b.opening = o) ∧
    ∀ b : BracketPair ts,
      (parse b.removed = .ok p ↔ b.slot.Spares b.body.level?) ∧
      ((∃ q, parse b.removed = .ok q) ↔ b.body.minus? = none ∨
        b.slot.terms = .nothing ∧ b.slot.factors = .nothing ∧ b.slot.operands = .nothing) := by
  refine ⟨fun u o v ⟨hts, hu, ho⟩ => BracketPair.exists_of_opening h hts hu ho, fun b => ?_⟩
  obtain ⟨hsame, hany⟩ := b.parse_removed h
  rw [Slot.frame_eq_empty] at hany
  exact ⟨hsame, hany⟩

/-- `x = (y + z) * y`: the sum is a factor. -/
def sumAsFactor : List Token :=
  [.sample .beginWord "begin", .sample .newline "\n", .sample .identifier "x",
   .sample .assign "=", .sample .parenLeft "(", .sample .identifier "y", .sample .additive "+",
   .sample .identifier "z", .sample .parenRight ")", .sample .multiplicative "*",
   .sample .identifier "y", .sample .newline "\n", .sample .endWord "end"]

/-- Without its brackets the sum takes the product for its second term. -/
theorem brackets_spared_iff_factor : ∃ p, parse sumAsFactor = .ok p ∧
    ∃ b : BracketPair sumAsFactor, b.opening = .sample .parenLeft "(" ∧ b.body.tokens.length = 3 ∧
      parse b.removed ≠ .ok p ∧ ∃ q, parse b.removed = .ok q := by
  let setting : Setting :=
    { body := ⟨⟨⟨.sample .beginWord "begin", rfl⟩, [.sample .newline "\n"], by simp,
        by simp [Token.sample]⟩, [], []⟩
      label := none
      target := ⟨.sample .identifier "x", rfl⟩
      equals := ⟨.sample .assign "=", rfl⟩
      spot := .whole
        { terms := .nothing
          factors := .nothing
          operands := .nothing
          moreOperands := []
          moreFactors :=
            [⟨.sample .multiplicative "*", rfl, .single (.leaf (.sample .identifier "y") rfl)⟩]
          moreTerms := [] }
      breaks := [.sample .newline "\n"]
      breaks_ne_nil := by simp
      breaks_kind := by simp [Token.sample]
      later := []
      closing := ⟨.sample .endWord "end", rfl⟩ }
  let pair : BracketPair sumAsFactor :=
    { setting := setting
      opening := .sample .parenLeft "("
      opening_kind := .inl rfl
      body := .more (.single (.single (.single (.leaf (.sample .identifier "y") rfl))))
        (.sample .additive "+") rfl (.single (.single (.leaf (.sample .identifier "z") rfl)))
      closing := .sample .parenRight ")"
      closing_kind := .inl rfl
      rest := [.sample .multiplicative "*", .sample .identifier "y", .sample .newline "\n",
        .sample .endWord "end"]
      tokens_fill := rfl
      tokens_eq := rfl }
  obtain ⟨p, hp⟩ : ∃ p, parse sumAsFactor = .ok p := ⟨_, rfl⟩
  obtain ⟨hsame, hany⟩ := (brackets_spared_iff hp).2 pair
  refine ⟨p, hp, pair, rfl, rfl, fun h => ?_, hany.mpr (.inl rfl)⟩
  obtain ⟨-, -, -, hfactors, -⟩ := hsame.mp h
  cases hfactors

end AssignLang
