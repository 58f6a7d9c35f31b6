/-
# Descending into an expression

Where an operand must come, the descent into a phrase passes the tokens that the
reading takes, and returns the expression that the reading's frames close to
(`Phrased`). A phrase ends before a token that is no sign of its own chains, so each
chain is as long as it can be. Brackets are passed before the descent goes into them: a
primary needs only what is known of the sums that begin behind its first token
(`reads_primary`), so brackets do not nest deeper than there are tokens.

Key definitions: `MayFollow`, `Closes`, `Phrased`, `Reads`.
Key theorems: `reads_primary`, `meets_links`, `reads_sum`, `reads_expression`.
-/
import AssignLang.Proofs.Descent.Agreement
import AssignLang.Proofs.Reading.Around

namespace AssignLang

theorem Frame.await_ne_empty (f : Frame) (level : Level) (e : Expr) (op : BinaryOp) (t : Token) :
    f.await level e op t ≠ .empty := by
  cases level <;> simp [await, empty]

/-- A token that starts no operand is refused. -/
theorem Reading.step_operand_eq_reject {ds : Array Definition} {as : Array Assignment} {head : Head}
    {f : Frame} {outer : List Frame} {t : Token} (hk : t.kind.isOperand = false)
    (ho : t.kind.isOpening = false) (hm : f = .empty → ¬ (t.kind = .additive ∧ t.text = "-")) :
    step ⟨ds, as, .operand head f outer⟩ t = reject ⟨ds, as, .operand head f outer⟩ t := by
  simp only [step]
  unfold stepOperand
  split
  · next h => simp [h, Kind.isOperand] at hk
  · next h => simp [h, Kind.isOperand] at hk
  · next h => simp [h, Kind.isOperand] at hk
  · next h =>
    rw [if_neg]
    rintro ⟨htext, hempty⟩
    exact hm (Frame.eq_empty_of_isEmpty hempty) ⟨h, htext⟩
  · rw [ho]
    rfl

/-- Behind an operand a token that is no sign ends what is between two brackets, or the
assignment. -/
theorem Reading.step_operator {ds : Array Definition} {as : Array Assignment} {head : Head}
    {f : Frame} {outer : List Frame} {e : Expr} {t : Token} (h : t.kind.level? = none) :
    step ⟨ds, as, .operator head f outer e⟩ t =
      stepClose ⟨ds, as, .operator head f outer e⟩ head f outer e t := by
  simp only [step, stepOperator, h]

namespace Descent

/-- What may stand behind a phrase of the sort: no sign of a chain that ends with it. -/
def MayFollow : Symbol → Kind → Prop
  | .primary, _ => True
  | .chain .power, k => k ≠ .exponentiation
  | .chain .product, k => k ≠ .multiplicative ∧ k ≠ .exponentiation
  | .chain .sum, k => k.level? = none

theorem mayFollow_chain {level : Level} {k : Kind} (h : MayFollow level.operand k)
    (hk : k ≠ level.sign) : MayFollow (.chain level) k := by
  cases level with
  | power => exact hk
  | product => exact ⟨hk, h⟩
  | sum =>
    have hlevel : ∀ level, k.level? ≠ some level := by
      intro level hlevel
      have hsign := Kind.level?_eq_some_iff.mp hlevel
      cases level with
      | power => exact h.2 hsign
      | product => exact h.1 hsign
      | sum => exact hk hsign
    exact Option.eq_none_iff_forall_ne_some.mpr hlevel

/-- What was read since the frame `f` closes to the phrase `a` of the sort. -/
def Closes (ds : Array Definition) (as : Array Assignment) (head : Head) (f : Frame)
    (outer : List Frame) (s : Symbol) (a : Expr) (r : Reading) : Prop :=
  ∃ g b, r = ⟨ds, as, .operator head g outer b⟩ ∧ f.Keeps g s ∧ g.close b s = a

/-- The phrase `a` of the sort was read, which began in the frame `f`, up to the token
number `i`. -/
def Phrased (ts : List Token) (ds : Array Definition) (as : Array Assignment) (head : Head)
    (f : Frame) (outer : List Frame) (s : Symbol) (a : Expr) (i : Nat) (r : Reading) : Prop :=
  Closes ds as head f outer s a r ∧ ∀ t, ts[i]? = some t → MayFollow s t.kind

/-- From the token number `m` on, `x` reads a phrase of the sort as the reading does. A
minus sign at the start of a frame is left to the sum. -/
def Reads (ts : List Token) (e m : Nat) (s : Symbol) (x : Walk Expr) : Prop :=
  ∀ ⦃c : Cursor⦄ ⦃ds : Array Definition⦄ ⦃as : Array Assignment⦄ ⦃head : Head⦄ ⦃f : Frame⦄
    ⦃outer : List Frame⦄, m ≤ c.current → Along ts e c ⟨ds, as, .operand head f outer⟩ →
    f.Ready s →
    (s ≠ .chain .sum → f = .empty → ∀ t, ts[c.current]? = some t →
      ¬ (t.kind = .additive ∧ t.text = "-")) →
    Meets ts e x c ⟨ds, as, .operand head f outer⟩ fun a i r =>
      c.current < i ∧ Phrased ts ds as head f outer s a i r

variable {ts : List Token} {e m limit : Nat} {c : Cursor} {t : Token} {ds : Array Definition}
  {as : Array Assignment} {head : Head} {f : Frame} {outer : List Frame} {x : Walk Expr}

section
variable (he : FirstEnd ts e)
include he

/-- **A primary needs no more than the sums that begin behind its first token.** -/
theorem reads_primary (h : Reads ts e (m + 1) (.chain .sum) x) :
    Reads ts e m .primary (primary x) := by
  intro c ds as head f outer hm halong _ hminus
  obtain ⟨t, ht⟩ := exists_token he halong.toTidy
  have hleaf : ∀ {i : Nat} {a : Expr}, Phrased ts ds as head f outer .primary a i
      ⟨ds, as, .operator head f outer a⟩ := fun {i a} => ⟨⟨f, a, rfl, rfl, rfl⟩, fun _ _ => trivial⟩
  apply Meets.look (run_peek he halong.toTidy ht)
  split
  · next hk =>
    apply Meets.bind (Meets.integer he halong ht (fun l => .operator head f outer (.integer l))
      (fun _ => by simp only [Reading.step, Reading.stepOperand, hk]) fun hne => absurd hk hne)
    rintro l c' _ - halong' ⟨hcurrent, rfl⟩
    exact Meets.ret halong' ⟨by omega, hleaf⟩
  · next hk =>
    have hnumeral := Meets.numeral he halong ht "real" (fun l => .operator head f outer (.real l))
      (.inr hk) (by simp only [Reading.step, Reading.stepOperand, hk]; rfl)
    refine Meets.of_run (y := (do let t ← advance; literal t (Literal.real t)) >>= fun l =>
      pure (.real l)) ?_ (by rw [bind_assoc])
    apply Meets.bind hnumeral
    rintro l c' _ - halong' ⟨hcurrent, rfl⟩
    exact Meets.ret halong' ⟨by omega, hleaf⟩
  · next hk =>
    apply Meets.bind (Meets.advance he halong ht (.leaf (e := .name t) (by simp [Expr.leaf?, hk])))
    rintro _ c' _ - halong' ⟨rfl, hcurrent, rfl⟩
    exact Meets.ret halong' ⟨by omega, hleaf⟩
  · next hint hreal hname =>
    by_cases ho : t.kind.isOpening = true
    · rw [if_pos ho]
      apply Meets.bind (Meets.turn .brackets halong (Meets.advance he halong ht (.opening ho))
        fun _ i _ hi => by omega)
      rintro _ c₁ _ - halong₁ ⟨-, hcurrent₁, rfl⟩
      apply Meets.bind (h (by omega) halong₁ rfl fun hne => absurd rfl hne)
      rintro a c₂ _ - halong₂ ⟨hlt₂, ⟨g, b, rfl, -, rfl⟩, hfollow⟩
      obtain ⟨u, hu⟩ := exists_token he halong₂.toTidy
      have hlevel : u.kind.level? = none := hfollow u hu
      apply Meets.bind (Meets.expect he halong₂ hu
        (fun hclosing => .closing (Kind.isClosing_iff.mpr (by simpa using hclosing)))
        fun hne => Reading.refuses_of_step (by simp) ?_)
      · rintro _ c₃ _ - halong₃ ⟨-, -, hcurrent₃, rfl⟩
        exact Meets.ret halong₃ ⟨by omega, hleaf⟩
      · have hclosing : u.kind.isClosing = false :=
          Bool.eq_false_iff.mpr fun h => hne (by simpa using Kind.isClosing_iff.mp h)
        rw [Reading.step_operator hlevel, Reading.stepClose, hclosing]
        rfl
    · rw [if_neg ho]
      have hoperand : t.kind.isOperand = false := by
        simpa [Kind.isOperand] using ⟨⟨hint, hreal⟩, hname⟩
      exact Meets.refuse he halong ht (Reading.refuses_of_step (by simp)
        (Reading.step_operand_eq_reject hoperand (by simpa using ho)
          fun hempty => hminus (by simp) hempty t ht))

/-- A minus sign at the start of a sum is passed. -/
theorem meets_minus (halong : Along ts e c ⟨ds, as, .operand head .empty outer⟩)
    (ht : ts[c.current]? = some t) :
    Meets ts e minus c ⟨ds, as, .operand head .empty outer⟩ fun found i r => match found with
      | some u => i = c.current + 1 ∧ r = ⟨ds, as, .operand head ⟨.minus u, none, none⟩ outer⟩
      | none => i = c.current ∧ r = ⟨ds, as, .operand head .empty outer⟩ ∧
          ¬ (t.kind = .additive ∧ t.text = "-") := by
  apply Meets.look (run_peek he halong.toTidy ht)
  by_cases hm : t.kind = .additive ∧ t.text = "-"
  · rw [if_pos hm]
    apply Meets.bind (Meets.advance he halong ht (.minus hm))
    rintro _ c' _ - halong' ⟨rfl, hcurrent, rfl⟩
    exact Meets.ret halong' ⟨hcurrent, rfl⟩
  · rw [if_neg hm]
    exact Meets.ret halong ⟨rfl, rfl, hm⟩

section
variable (hlimit : e < limit)
include hlimit

/-- **A chain goes on as long as signs of its level follow.** -/
theorem meets_links (level : Level) (hreads : Reads ts e m level.operand x) {r : Reading}
    {a : Expr} (hm : m ≤ c.current) (halong : Along ts e c r)
    (hcloses : Closes ds as head f outer (.chain level) a r)
    (hfollow : ∀ t, ts[c.current]? = some t → MayFollow level.operand t.kind) :
    Meets ts e (links limit level x a) c r (Phrased ts ds as head f outer (.chain level)) := by
  refine Meets.loop
    (I := fun a i r => m ≤ i ∧ Closes ds as head f outer (.chain level) a r ∧
      ∀ t, ts[i]? = some t → MayFollow level.operand t.kind)
    (J := fun a i r => m ≤ i ∧ Closes ds as head f outer (.chain level) a r ∧
      ∃ t, ts[i]? = some t ∧ t.kind.level? = some level)
    (.chain level) ?_ ?_ halong (by omega) ⟨hm, hcloses, hfollow⟩
  · rintro a c₁ r₁ halong₁ ⟨hm₁, hcloses, hfollow⟩
    obtain ⟨t, ht⟩ := exists_token he halong₁.toTidy
    refine Meets.check he halong₁ ht _ ?_ ?_
    · intro hk
      exact ⟨hm₁, hcloses, t, ht, Kind.level?_eq_some_iff.mpr (by simpa using hk)⟩
    · intro hk
      refine ⟨hcloses, fun u hu => ?_⟩
      obtain rfl : t = u := Option.some.inj (ht.symm.trans hu)
      exact mayFollow_chain (hfollow t ht) (by simpa using hk)
  · rintro a c₁ _ halong₁ ⟨hm₁, ⟨g, b, rfl, hkeeps, hclose⟩, t, ht, hk⟩
    apply Meets.bind (Meets.sign he halong₁ ht hk rfl)
    rintro ⟨u, op⟩ c₂ _ - halong₂ ⟨hcurrent₂, rfl⟩
    apply Meets.bind (hreads (by omega) halong₂ (g.ready_await level b op u)
      fun _ hempty => absurd hempty (g.await_ne_empty level b op u))
    rintro right c₃ _ - halong₃ ⟨hlt₃, ⟨g', b', rfl, hkeeps', rfl⟩, hfollow'⟩
    obtain ⟨hmore, hbinary⟩ := hkeeps'.more b'
    have hcloses' : Closes ds as head f outer (.chain level)
        (.binary op u a (g'.close b' level.operand)) ⟨ds, as, .operator head g' outer b'⟩ :=
      ⟨g', b', rfl, hkeeps.trans hmore, by rw [hbinary, hclose]⟩
    exact Meets.ret halong₃ ⟨by omega, by omega, hcloses', hfollow'⟩

/-- A chain that begins with what was read. -/
theorem meets_chain (level : Level) (hreads : Reads ts e m level.operand x) {r : Reading}
    {a : Expr} (hm : m ≤ c.current) (halong : Along ts e c r) (hready : f.Ready (.chain level))
    (h : Phrased ts ds as head f outer level.operand a c.current r) :
    Meets ts e (links limit level x a) c r (Phrased ts ds as head f outer (.chain level)) := by
  obtain ⟨⟨g, b, rfl, hkeeps, rfl⟩, hfollow⟩ := h
  obtain ⟨hchain, hclose⟩ := hkeeps.single hready b
  exact meets_links he hlimit level hreads hm halong ⟨g, b, rfl, hchain, hclose⟩ hfollow

/-- Powers and products. -/
theorem reads_chain {level : Level} (hlevel : level ≠ .sum) (h : Reads ts e m level.operand x) :
    Reads ts e m (.chain level) (chain limit level x) := by
  intro c ds as head f outer hm halong hready hminus
  have hchain : Symbol.chain level ≠ .chain .sum := fun heq => hlevel (Symbol.chain.inj heq)
  apply Meets.bind (h hm halong hready.operand fun _ => hminus hchain)
  rintro a c₁ r hle halong₁ ⟨hlt, ha⟩
  refine (meets_chain he hlimit level h (by omega) halong₁ hready ha).imp ?_
  intro a' i r' hle' hr
  exact ⟨by omega, hr⟩

theorem reads_product (h : Reads ts e (m + 1) (.chain .sum) x) :
    Reads ts e m (.chain .product) (product limit x) := by
  have hpower : Reads ts e m (.chain .power) (chain limit .power (primary x)) :=
    reads_chain he hlimit (by simp) (reads_primary he h)
  exact reads_chain he hlimit (by simp) hpower

theorem reads_sum (h : Reads ts e (m + 1) (.chain .sum) x) :
    Reads ts e m (.chain .sum) (sum limit x) := by
  have hproduct := reads_product he hlimit h
  intro c ds as head f outer hm halong hready _
  obtain rfl : f = .empty := hready
  obtain ⟨t, ht⟩ := exists_token he halong.toTidy
  apply Meets.bind (meets_minus he halong ht)
  intro found c₁ r hle₁ halong₁ hfound
  cases found with
  | some u =>
    -- The minus sign takes the whole first product.
    obtain ⟨hcurrent₁, rfl⟩ := hfound
    apply Meets.bind (hproduct (by omega) halong₁ ⟨rfl, rfl⟩
      fun _ hempty => by simp [Frame.empty] at hempty)
    rintro a c₂ _ - halong₂ ⟨hlt₂, ⟨g, b, rfl, hkeeps, rfl⟩, hfollow⟩
    have hlead : g.lead = .minus u := hkeeps
    have hcloses : Closes ds as head .empty outer (.chain .sum)
        (.negate u (g.close b (.chain .product))) ⟨ds, as, .operator head g outer b⟩ :=
      ⟨g, b, rfl, trivial, by simp only [Frame.close, Frame.closeSum, hlead, Lead.close]⟩
    refine (meets_links he hlimit .sum hproduct (by omega) halong₂ hcloses hfollow).imp ?_
    intro a' i r' hle' hr
    exact ⟨by omega, hr⟩
  | none =>
    obtain ⟨hcurrent₁, rfl, hnot⟩ := hfound
    have hminus : ∀ u, ts[c₁.current]? = some u → ¬ (u.kind = .additive ∧ u.text = "-") := by
      intro u hu
      rw [hcurrent₁] at hu
      obtain rfl : t = u := Option.some.inj (ht.symm.trans hu)
      exact hnot
    apply Meets.bind (hproduct (by omega) halong₁ ⟨rfl, rfl⟩ fun _ _ => hminus)
    rintro a c₂ r - halong₂ ⟨hlt₂, ha⟩
    refine (meets_chain he hlimit .sum hproduct (by omega) halong₂ rfl ha).imp ?_
    intro a' i r' hle' hr
    exact ⟨by omega, hr⟩

/-- **The descent into an expression does what the reading does** where fewer tokens are
left than brackets allowed. -/
theorem reads_expression : ∀ {depth m : Nat}, e < m + depth →
    Reads ts e m (.chain .sum) (expression limit depth)
  | 0, m, hdepth => by
    -- No cursor stands behind the end.
    intro c ds as head f outer hm halong
    have hle := halong.current_le
    omega
  | depth + 1, m, hdepth => by
    rw [expression]
    exact reads_sum he hlimit (reads_expression (by omega))

end
end
end Descent
end AssignLang
