/-
# Every derivation is read

From the place where an operand must come, the reading takes the tokens of a
phrase one after the other and comes to the place after an operand, with a
frame that closes to the expression of the phrase (`steps_phrase`). What the
phrase does not close stays as it was: `Frame.Keeps`. A line is read from the
start of a line to the start of the next, and so is a whole derivation.

Key definitions: `Frame.Ready`, `Frame.Keeps`, `Frame.close`.
Key theorems: `Reading.steps_phrase`, `Reading.exists_steps_of_derivation`.
-/
import AssignLang.Proofs.Grammar.Derivation
import AssignLang.Proofs.Reading.Passage
import AssignLang.Proofs.Reading.Step

namespace AssignLang
namespace Frame

/-- A phrase of the sort can begin: none of its own operations waits. -/
def Ready (f : Frame) : Symbol → Prop
  | .primary => True
  | .chain .power => f.power = none
  | .chain .product => f.product = none ∧ f.power = none
  | .chain .sum => f = empty

/-- The frames wait for the same above the phrases of the sort. -/
def Keeps (f g : Frame) : Symbol → Prop
  | .primary => g = f
  | .chain .power => g.lead = f.lead ∧ g.product = f.product
  | .chain .product => g.lead = f.lead
  | .chain .sum => True

/-- The phrase of the sort that ends with an operand. -/
def close (f : Frame) (e : Expr) : Symbol → Expr
  | .primary => e
  | .chain .power => f.closePower e
  | .chain .product => f.closeProduct e
  | .chain .sum => f.closeSum e

theorem Ready.operand {f : Frame} {level : Level} (h : f.Ready (.chain level)) :
    f.Ready level.operand := by
  cases level with
  | power => trivial
  | product => exact h.2
  | sum =>
    obtain rfl : f = empty := h
    exact ⟨rfl, rfl⟩

theorem Keeps.trans {f g h : Frame} {s : Symbol} (hfg : f.Keeps g s) (hgh : g.Keeps h s) :
    f.Keeps h s := by
  cases s with
  | primary => exact Eq.trans hgh hfg
  | chain level =>
    cases level with
    | power => exact ⟨hgh.1.trans hfg.1, hgh.2.trans hfg.2⟩
    | product => exact Eq.trans hgh hfg
    | sum => trivial

/-- A chain of one operand. -/
theorem Keeps.single {f g : Frame} {level : Level} (h : f.Ready (.chain level))
    (hk : f.Keeps g level.operand) (e : Expr) :
    f.Keeps g (.chain level) ∧ g.close e (.chain level) = g.close e level.operand := by
  cases level with
  | power =>
    obtain rfl : g = f := hk
    exact ⟨⟨rfl, rfl⟩, by
      simp only [close, closePower, show g.power = none from h, closeOption]⟩
  | product =>
    refine ⟨hk.1, ?_⟩
    have hp : g.product = none := hk.2.trans h.1
    simp only [close, closeProduct, hp, closeOption]
  | sum =>
    refine ⟨trivial, ?_⟩
    obtain rfl : f = empty := h
    have hl : g.lead = .nothing := hk
    simp only [close, closeSum, hl, Lead.close]

/-- An operation waits for its right operand. -/
theorem ready_await (f : Frame) (level : Level) (e : Expr) (op : BinaryOp) (t : Token) :
    (f.await level e op t).Ready level.operand := by
  cases level with
  | power => trivial
  | product => rfl
  | sum => exact ⟨rfl, rfl⟩

/-- The operation gets its right operand, and its chain goes on. -/
theorem Keeps.more {f g : Frame} {level : Level} {e : Expr} {op : BinaryOp} {t : Token}
    (hk : (f.await level e op t).Keeps g level.operand) (b : Expr) :
    f.Keeps g (.chain level) ∧
      g.close b (.chain level) = .binary op t (f.close e (.chain level)) (g.close b level.operand) := by
  cases level with
  | power =>
    obtain rfl : g = f.await .power e op t := hk
    exact ⟨⟨rfl, rfl⟩, rfl⟩
  | product =>
    refine ⟨hk.1, ?_⟩
    have hp : g.product = some ⟨f.closeProduct e, op, t⟩ := hk.2
    simp only [close, closeProduct, hp, closeOption, Pending.close]
  | sum =>
    refine ⟨trivial, ?_⟩
    have hl : g.lead = .sum ⟨f.closeSum e, op, t⟩ := hk
    simp only [close, closeSum, hl, Lead.close, Pending.close]

end Frame

namespace Reading

/-- **A phrase is read to the expression it stands for.** -/
theorem steps_phrase (ds : Array Definition) (as : Array Assignment) (head : Head) :
    ∀ {s : Symbol} (p : Phrase s) (f : Frame) (outer : List Frame) {e : Expr}, p.expr? = some e →
    f.Ready s → ∃ g b, steps ⟨ds, as, .operand head f outer⟩ p.tokens = .ok ⟨ds, as, .operator head g outer b⟩ ∧
      f.Keeps g s ∧ g.close b s = e
  | _, .leaf t _, f, outer, e, he, _ => by
    refine ⟨f, e, ?_, rfl, rfl⟩
    rw [Phrase.tokens, steps_singleton]
    exact (Next.leaf he).step_eq
  | _, .group opening ho body closing hc, f, outer, e, he, _ => by
    obtain ⟨g, b, hsteps, -, rfl⟩ := steps_phrase ds as head body .empty (f :: outer) he rfl
    refine ⟨f, g.closeSum b, ?_, rfl, rfl⟩
    rw [Phrase.tokens, List.cons_append, steps_cons_of_ok (Next.opening (Kind.isOpening_iff.mpr ho)).step_eq,
      steps_append_of_ok hsteps, steps_singleton]
    exact (Next.closing (Kind.isClosing_iff.mpr hc)).step_eq
  | _, .single first, f, outer, e, he, hr => by
    obtain ⟨g, b, hsteps, hk, rfl⟩ := steps_phrase ds as head first f outer he hr.operand
    obtain ⟨hkeeps, hclose⟩ := hk.single hr b
    exact ⟨g, b, hsteps, hkeeps, hclose⟩
  | _, .negated minus hm first, f, outer, e, he, hr => by
    obtain rfl : f = .empty := hr
    obtain ⟨a, ha, rfl⟩ := Option.map_eq_some_iff.mp he
    obtain ⟨g, b, hsteps, hk, rfl⟩ :=
      steps_phrase ds as head first ⟨.minus minus, none, none⟩ outer ha ⟨rfl, rfl⟩
    refine ⟨g, b, ?_, trivial, ?_⟩
    · rw [Phrase.tokens, steps_cons_of_ok (Next.minus hm).step_eq, hsteps]
    · have hl : g.lead = .minus minus := hk
      simp only [Frame.close, Frame.closeSum, hl, Lead.close]
  | _, .more left sign hs right, f, outer, e, he, hr => by
    simp only [Phrase.expr?, Option.bind_eq_some_iff, Option.map_eq_some_iff] at he
    obtain ⟨a, ha, op, hop, b, hb, rfl⟩ := he
    obtain ⟨g, c, hleft, hk, rfl⟩ := steps_phrase ds as head left f outer ha hr
    obtain ⟨g', c', hright, hk', rfl⟩ :=
      steps_phrase ds as head right _ outer hb (g.ready_await _ c op sign)
    obtain ⟨hkeeps, hclose⟩ := hk'.more c'
    refine ⟨g', c', ?_, hk.trans hkeeps, hclose⟩
    have hsign : Next ⟨ds, as, .operator head g outer c⟩ sign _ :=
      .sign (Kind.level?_eq_some_iff.mpr hs) hop
    rw [Phrase.tokens, steps_append_of_ok hleft, steps_cons_of_ok hsign.step_eq, hright]

/-! ### Lines -/

variable {ds : Array Definition} {as : Array Assignment}

theorem steps_blanks : ∀ {bs : List Token}, (∀ t ∈ bs, t.kind = .newline) →
    steps ⟨ds, as, .line⟩ bs = .ok ⟨ds, as, .line⟩
  | [], _ => rfl
  | t :: bs, h => by
    rw [steps_cons_of_ok (Next.blank (h t List.mem_cons_self)).step_eq]
    exact steps_blanks fun u hu => h u (List.mem_cons_of_mem t hu)

/-- A content that ends with its first line feed is read with all of them. -/
theorem steps_line {α : Type} {f : α → List Token} (l : Line α) {r : Reading} (r' : Reading)
    {ds : Array Definition} {as : Array Assignment} (hf : r.steps (f l.content) = .ok r')
    (hbreak : ∀ t : Token, t.kind = .newline → Next r' t ⟨ds, as, .line⟩) :
    r.steps (l.tokens f) = .ok ⟨ds, as, .line⟩ := by
  obtain ⟨t, w, hb, ht⟩ := l.exists_break
  have hw : ∀ u ∈ w, u.kind = .newline := fun u hu => l.breaks_kind u (by simp [hb, hu])
  rw [Line.tokens, steps_append_of_ok hf, hb, steps_cons_of_ok (hbreak t ht).step_eq]
  exact steps_blanks hw

theorem steps_names {k : Token} : ∀ {ts : List Token} {ns : Array Token},
    (∀ t ∈ ts, t.kind = .identifier) →
      steps ⟨ds, as, .names k ns⟩ ts = .ok ⟨ds, as, .names k (ns ++ ts.toArray)⟩
  | [], ns, _ => by simp
  | t :: ts, ns, h => by
    rw [steps_cons_of_ok (Next.name (h t List.mem_cons_self)).step_eq,
      steps_names fun u hu => h u (List.mem_cons_of_mem t hu)]
    simp

theorem steps_integers {k : Token} : ∀ {ts : List Token} {vs : List Literal} {ls : Array Literal},
    (∀ t ∈ ts, t.kind = .literalInt) → ts.mapM Literal.read? = some vs →
      steps ⟨ds, as, .integers k ls⟩ ts = .ok ⟨ds, as, .integers k (ls ++ vs.toArray)⟩
  | [], vs, ls, _, hv => by
    obtain rfl : vs = [] := by simpa using hv.symm
    simp
  | t :: ts, vs, ls, h, hv => by
    simp only [List.mapM_cons, Option.bind_eq_bind, Option.bind_eq_some_iff, Option.pure_def,
      Option.some.injEq] at hv
    obtain ⟨v, hl, vs', hvs, rfl⟩ := hv
    rw [steps_cons_of_ok (Next.whole (h t List.mem_cons_self) hl).step_eq,
      steps_integers (fun u hu => h u (List.mem_cons_of_mem t hu)) hvs]
    simp

theorem steps_definition (l : Line DefinitionLine) {d : Definition}
    (hd : l.content.definition? = some d) :
    steps ⟨ds, #[], .line⟩ (l.tokens DefinitionLine.tokens) = .ok ⟨ds.push d, #[], .line⟩ := by
  have hne := l.content.items_ne_nil
  rcases l.content.kinds with ⟨hk, hi⟩ | ⟨hk, hi⟩ <;> simp only [DefinitionLine.definition?, hk] at hd
  · cases hd
    refine steps_line l ⟨ds, #[], .names l.content.keyword l.content.items.toArray⟩ ?_ ?_
    · rw [DefinitionLine.tokens, steps_cons_of_ok (Next.real hk).step_eq, steps_names hi]
      simp
    · exact fun t ht => .names ht (by simpa using hne)
  · obtain ⟨ls, hls, rfl⟩ := Option.map_eq_some_iff.mp hd
    refine steps_line l ⟨ds, #[], .integers l.content.keyword ls.toArray⟩ ?_ ?_
    · rw [DefinitionLine.tokens, steps_cons_of_ok (Next.integer hk).step_eq, steps_integers hi hls]
      simp
    · refine fun t ht => .wholes ht fun hnil => hne ?_
      obtain rfl : ls = [] := by simpa using hnil
      exact eq_nil_of_mapM_eq_nil hls

/-- A label is read with its colon and the target after it. -/
theorem steps_target (a : AssignmentLine) {label : Option Literal} (h : a.label? = some label) :
    steps ⟨ds, as, .line⟩ (a.labelTokens ++ [a.target.1]) =
      .ok ⟨ds, as, .target ⟨label, a.target.1⟩⟩ := by
  unfold AssignmentLine.label? at h
  unfold AssignmentLine.labelTokens
  cases hl : a.label with
  | none =>
    rw [hl] at h
    cases h
    rw [List.nil_append, steps_singleton]
    exact (Next.target a.target.2).step_eq
  | some p =>
    obtain ⟨l, colon⟩ := p
    rw [hl] at h
    obtain ⟨v, hv, rfl⟩ := Option.map_eq_some_iff.mp h
    rw [List.cons_append, List.cons_append, List.nil_append,
      steps_cons_of_ok (Next.label l.2 hv).step_eq, steps_cons_of_ok (Next.colon colon.2).step_eq,
      steps_singleton]
    exact (Next.labelled a.target.2).step_eq

theorem steps_assignment (l : Line AssignmentLine) {a : Assignment}
    (ha : l.content.assignment? = some a) :
    steps ⟨ds, as, .line⟩ (l.tokens AssignmentLine.tokens) = .ok ⟨ds, as.push a, .line⟩ := by
  simp only [AssignmentLine.assignment?, Option.bind_eq_some_iff, Option.map_eq_some_iff] at ha
  obtain ⟨label, hlabel, e, he, rfl⟩ := ha
  obtain ⟨g, b, hexpr, -, rfl⟩ :=
    steps_phrase ds as ⟨label, l.content.target.1⟩ l.content.expr .empty [] he rfl
  refine steps_line l ⟨ds, as, .operator ⟨label, l.content.target.1⟩ g [] b⟩ ?_
    fun t ht => .assigned ht
  rw [AssignmentLine.tokens, List.append_cons, steps_append_of_ok (steps_target l.content hlabel),
    steps_cons_of_ok (Next.equals l.content.equals.2).step_eq]
  exact hexpr

/-- Lines are read one after the other, if each of them adds what it stands for
to what the reading holds. -/
theorem steps_lines {α β : Type} {f : α → List Token} {g : α → Option β} (held : Array β → Reading)
    (hstep : ∀ (bs : Array β) (l : Line α) (v : β), g l.content = some v →
      (held bs).steps (l.tokens f) = .ok (held (bs.push v))) :
    ∀ {ls : List (Line α)} {vs : List β} (bs : Array β),
      ls.mapM (fun l => g l.content) = some vs →
      (held bs).steps (Line.allTokens f ls) = .ok (held (bs ++ vs.toArray))
  | [], vs, bs, h => by
    obtain rfl : vs = [] := by simpa using h.symm
    simp [Line.allTokens]
  | l :: ls, vs, bs, h => by
    simp only [List.mapM_cons, Option.bind_eq_bind, Option.bind_eq_some_iff, Option.pure_def,
      Option.some.injEq] at h
    obtain ⟨v, hv, vs', hvs, rfl⟩ := h
    rw [Line.allTokens, List.flatMap_cons, steps_append_of_ok (hstep bs l v hv)]
    exact (steps_lines held hstep (bs.push v) hvs).trans (by simp)

/-- The lines before `end` are read to the definitions and assignments they stand for. -/
theorem steps_body {b : Body} {ds : List Definition} {as : List Assignment}
    (h : b.program? = some ⟨ds, as⟩) :
    start.steps b.tokens = .ok ⟨ds.toArray, as.toArray, .line⟩ := by
  simp only [Body.program?, Option.bind_eq_some_iff, Option.map_eq_some_iff,
    Program.mk.injEq] at h
  obtain ⟨ds, hds, as, has, rfl, rfl⟩ := h
  have hopen : start.steps (b.opening.tokens fun t => [t.1]) = .ok ⟨#[], #[], .line⟩ := by
    refine steps_line b.opening ⟨#[], #[], .heading⟩ ?_ fun t ht => .heads ht
    rw [steps_singleton]
    exact (Next.opens b.opening.content.2).step_eq
  have hdefine := steps_lines (fun ds => ⟨ds, #[], .line⟩)
    (fun _ l _ hv => steps_definition l hv) #[] hds
  have hassign := steps_lines (fun as => ⟨ds.toArray, as, .line⟩)
    (fun _ l _ hv => steps_assignment l hv) #[] has
  rw [Array.empty_append] at hdefine hassign
  rw [Body.tokens, List.append_assoc, steps_append_of_ok hopen, steps_append_of_ok hdefine, hassign]

/-- **A derivation is read from its first token to `end`**, to the program it
stands for. -/
theorem exists_steps_of_derivation {d : Derivation} {p : Program} (h : d.program? = some p) :
    ∃ r, start.steps d.tokens = .ok r ∧ r.phase = .ended ∧ p = r.program := by
  refine ⟨⟨p.definitions.toArray, p.assignments.toArray, .ended⟩, ?_, rfl, rfl⟩
  rw [Derivation.tokens, steps_append_of_ok (steps_body h), steps_singleton]
  exact (Next.ends d.closing.2).step_eq

end Reading
end AssignLang
