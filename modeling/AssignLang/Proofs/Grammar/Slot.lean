/-
# What stands around a bracket

A pair of brackets is an operand of a power, the power is a factor of a product, and
the product is a term of a sum. A `Slot` is what the three chains have besides the
pair: on either side the operands of the power, the factors of the product and the
terms of the sum. The sum may stand between brackets again, whose slot is the next
one outside, and so on up to the right side of an assignment (`Spot`); with the rest
of the program this is the `Setting` of the pair.

A setting that is filled with a primary is a derivation, and every opening bracket in
the tokens of a derivation is the first token of the group that fills a setting of it.

Key definitions: `Front`, `Added`, `Slot`, `Spot`, `Setting`, `Setting.fill`.
Key theorems: `Setting.tokens_fill`, `Derivation.exists_setting`.
-/
import AssignLang.Proofs.Grammar.Derivation

namespace AssignLang

variable {level : Level}

/-! ### Chains without one operand -/

/-- A chain that lacks its last operand. -/
inductive Front : Level → Type
  /-- The operand is the first one, and no minus sign stands before it. -/
  | nothing {level : Level} : Front level
  | minus (t : Token) (ht : t.kind = .additive ∧ t.text = "-") : Front .sum
  | chain {level : Level} (left : Phrase (.chain level)) (sign : Token)
      (hs : sign.kind = level.sign) : Front level

namespace Front

def tokens : {level : Level} → Front level → List Token
  | _, nothing => []
  | _, minus t _ => [t]
  | _, chain left sign _ => left.tokens ++ [sign]

/-- The chain with its last operand. -/
def join : {level : Level} → Front level → Phrase level.operand → Phrase (.chain level)
  | _, nothing, p => .single p
  | _, minus t ht, p => .negated t ht p
  | _, chain left sign hs, p => .more left sign hs p

theorem tokens_join (a : Front level) (p : Phrase level.operand) :
    (a.join p).tokens = a.tokens ++ p.tokens := by
  cases a with
  | nothing => rfl
  | minus t ht => rfl
  | chain left sign hs => simp [join, tokens, Phrase.tokens]

end Front

/-- One more operand of a chain, with the sign before it. -/
structure Added (level : Level) where
  sign : Token
  sign_kind : sign.kind = level.sign
  operand : Phrase level.operand

namespace Added

def tokens (a : Added level) : List Token := a.sign :: a.operand.tokens

/-- The tokens of operands that follow one another. -/
def allTokens (as : List (Added level)) : List Token := as.flatMap tokens

end Added

/-- The chain with more operands. -/
def Phrase.extend (c : Phrase (.chain level)) (as : List (Added level)) : Phrase (.chain level) :=
  as.foldl (fun c a => .more c a.sign a.sign_kind a.operand) c

theorem Phrase.tokens_extend (c : Phrase (.chain level)) (as : List (Added level)) :
    (c.extend as).tokens = c.tokens ++ Added.allTokens as := by
  induction as generalizing c with
  | nil => exact (List.append_nil _).symm
  | cons a as ih =>
    rw [extend, List.foldl_cons]
    exact (ih _).trans (by simp [tokens, Added.allTokens, Added.tokens])

/-! ### Slots, spots and settings -/

/-- The chains around a primary, without it. -/
structure Slot where
  /-- The terms of the sum before the term of the primary. -/
  terms : Front .sum
  /-- The factors of this term before the factor of the primary. -/
  factors : Front .product
  /-- The operands of this factor before the primary. -/
  operands : Front .power
  moreOperands : List (Added .power)
  moreFactors : List (Added .product)
  moreTerms : List (Added .sum)

namespace Slot

/-- The sum with a primary in the slot. -/
def fill (s : Slot) (p : Phrase .primary) : Phrase (.chain .sum) :=
  (s.terms.join ((s.factors.join ((s.operands.join p).extend s.moreOperands)).extend
    s.moreFactors)).extend s.moreTerms

def before (s : Slot) : List Token := s.terms.tokens ++ s.factors.tokens ++ s.operands.tokens

def after (s : Slot) : List Token :=
  Added.allTokens s.moreOperands ++ Added.allTokens s.moreFactors ++ Added.allTokens s.moreTerms

theorem tokens_fill (s : Slot) (p : Phrase .primary) :
    (s.fill p).tokens = s.before ++ p.tokens ++ s.after := by
  simp [fill, Phrase.tokens_extend, Front.tokens_join, before, after]

end Slot

/-- A place in a right side: a slot in a sum, or a place between the brackets that
fill one. -/
inductive Spot
  | whole (slot : Slot)
  | nested (outer : Slot) (opening : Token)
      (ho : opening.kind = .parenLeft ∨ opening.kind = .bracketLeft) (inner : Spot)
      (closing : Token) (hc : closing.kind = .parenRight ∨ closing.kind = .bracketRight)

namespace Spot

/-- The innermost slot. -/
def slot : Spot → Slot
  | whole s => s
  | nested _ _ _ inner _ _ => inner.slot

/-- The right side with a primary in the place. -/
def fill : Spot → Phrase .primary → Phrase (.chain .sum)
  | whole s, p => s.fill p
  | nested outer opening ho inner closing hc, p =>
    outer.fill (.group opening ho (inner.fill p) closing hc)

def before : Spot → List Token
  | whole s => s.before
  | nested outer opening _ inner _ _ => outer.before ++ opening :: inner.before

def after : Spot → List Token
  | whole s => s.after
  | nested outer _ _ inner closing _ => inner.after ++ closing :: outer.after

theorem tokens_fill : ∀ (s : Spot) (p : Phrase .primary),
    (s.fill p).tokens = s.before ++ p.tokens ++ s.after
  | whole s, p => s.tokens_fill p
  | nested outer opening ho inner closing hc, p => by
    simp [fill, before, after, Slot.tokens_fill, Phrase.tokens, tokens_fill inner p]

end Spot

/-- A place in a program. -/
structure Setting where
  /-- The lines before the assignment. -/
  body : Body
  label : Option (Terminal .literalInt × Terminal .colon)
  target : Terminal .identifier
  equals : Terminal .assign
  spot : Spot
  breaks : List Token
  breaks_ne_nil : breaks ≠ []
  breaks_kind : ∀ t ∈ breaks, t.kind = .newline
  later : List (Line AssignmentLine)
  closing : Terminal .endWord

namespace Setting

/-- The assignment with a right side. -/
def line (s : Setting) (expr : Phrase (.chain .sum)) : Line AssignmentLine :=
  ⟨⟨s.label, s.target, s.equals, expr⟩, s.breaks, s.breaks_ne_nil, s.breaks_kind⟩

/-- The derivation with a primary in the place. -/
def fill (s : Setting) (p : Phrase .primary) : Derivation :=
  ⟨⟨s.body.opening, s.body.definitions,
    s.body.assignments ++ s.line (s.spot.fill p) :: s.later⟩, s.closing⟩

def labelTokens (s : Setting) : List Token :=
  match s.label with
  | some (l, colon) => [l.1, colon.1]
  | none => []

/-- The tokens before the right side. -/
def headTokens (s : Setting) : List Token :=
  s.body.tokens ++ s.labelTokens ++ [s.target.1, s.equals.1]

/-- The tokens after the right side. -/
def tailTokens (s : Setting) : List Token :=
  s.breaks ++ Line.allTokens AssignmentLine.tokens s.later ++ [s.closing.1]

def before (s : Setting) : List Token := s.headTokens ++ s.spot.before

def after (s : Setting) : List Token := s.spot.after ++ s.tailTokens

theorem tokens_fill (s : Setting) (p : Phrase .primary) :
    (s.fill p).tokens = s.before ++ p.tokens ++ s.after := by
  have hline : (s.line (s.spot.fill p)).tokens AssignmentLine.tokens =
      s.labelTokens ++ s.target.1 :: s.equals.1 :: (s.spot.fill p).tokens ++ s.breaks := rfl
  simp only [fill, Derivation.tokens, Body.tokens, Line.allTokens, List.flatMap_append,
    List.flatMap_cons, hline, Spot.tokens_fill, before, after, headTokens, tailTokens,
    List.append_assoc, List.cons_append, List.nil_append]

end Setting

/-! ### The place of a bracket -/

/-- An element of two lists one after the other stands in the first or in the second. -/
theorem exists_of_append_eq {α : Type} {x y u w : List α} {o : α} (h : x ++ y = u ++ o :: w) :
    (∃ w', x = u ++ o :: w') ∨ ∃ u', u = x ++ u' ∧ y = u' ++ o :: w := by
  rcases List.append_eq_append_iff.mp h with ⟨u', hu, hy⟩ | ⟨z, hx, hz⟩
  · exact .inr ⟨u', hu, hy⟩
  · cases z with
    | nil => exact .inr ⟨[], by simpa using hx.symm, hz.symm⟩
    | cons t z =>
      obtain ⟨rfl, -⟩ := List.cons.inj hz
      exact .inl ⟨z, hx⟩

section
variable {x y u w : List Token} {o : Token} {q : Kind → Bool} (ho : q o.kind = true)
include ho

theorem not_mem_of_kind (hx : ∀ t ∈ x, q t.kind = false) : ¬ ∃ w', x = u ++ o :: w' := by
  rintro ⟨w', rfl⟩
  have hfalse := hx o (by simp)
  rw [ho] at hfalse
  cases hfalse

/-- A token is not among tokens of other kinds before it. -/
theorem exists_of_append_eq_left (hx : ∀ t ∈ x, q t.kind = false) (h : x ++ y = u ++ o :: w) :
    ∃ u', u = x ++ u' ∧ y = u' ++ o :: w :=
  (exists_of_append_eq h).resolve_left (not_mem_of_kind ho hx)

/-- A token is not among tokens of other kinds after it. -/
theorem exists_of_append_eq_right (hy : ∀ t ∈ y, q t.kind = false) (h : x ++ y = u ++ o :: w) :
    ∃ w', x = u ++ o :: w' :=
  (exists_of_append_eq h).resolve_right fun ⟨_, _, h'⟩ => not_mem_of_kind ho hy ⟨_, h'⟩

end

theorem Kind.not_isOpening_of_isOperand {k : Kind} (h : k.isOperand = true) :
    k.isOpening = false := by
  revert h
  cases k <;> decide

theorem Level.not_isOpening_sign (level : Level) : level.sign.isOpening = false := by
  cases level <;> rfl

/-- An opening bracket of a chain belongs to one of its operands. -/
theorem Phrase.exists_front {o : Token} (ho : o.kind.isOpening = true) :
    ∀ {level : Level} (c : Phrase (.chain level)) {u w : List Token}, c.tokens = u ++ o :: w →
      ∃ (a : Front level) (p : Phrase level.operand) (as : List (Added level)) (v x : List Token),
        c = (a.join p).extend as ∧ p.tokens = v ++ o :: x ∧ u = a.tokens ++ v
  | _, .single p, u, w, h => ⟨.nothing, p, [], u, w, rfl, h, rfl⟩
  | _, .negated m hm p, u, w, h => by
    obtain ⟨v, rfl, hp⟩ := exists_of_append_eq_left (x := [m]) ho (by simp [hm.1, Kind.isOpening]) h
    exact ⟨.minus m hm, p, [], v, w, rfl, hp, rfl⟩
  | _, @Phrase.more level l s hs r, u, w, h => by
    have hsign : ∀ t ∈ [s], t.kind.isOpening = false := by simpa [hs] using level.not_isOpening_sign
    rcases exists_of_append_eq (show l.tokens ++ ([s] ++ r.tokens) = u ++ o :: w from h) with
      ⟨w', hl⟩ | ⟨u', rfl, hr⟩
    · obtain ⟨a, p, as, v, x, rfl, hp, hu⟩ := exists_front ho l hl
      exact ⟨a, p, as ++ [⟨s, hs, r⟩], v, x, by simp [Phrase.extend], hp, hu⟩
    · obtain ⟨v, rfl, hr'⟩ := exists_of_append_eq_left ho hsign hr
      exact ⟨.chain l s hs, r, [], v, w, rfl, hr', by simp [Front.tokens]⟩

/-- An opening bracket of a sum belongs to a group in a slot. -/
theorem Phrase.exists_slot {o : Token} (ho : o.kind.isOpening = true) (c : Phrase (.chain .sum))
    {u w : List Token} (h : c.tokens = u ++ o :: w) :
    ∃ (s : Slot) (p : Phrase .primary) (v x : List Token),
      c = s.fill p ∧ p.tokens = v ++ o :: x ∧ u = s.before ++ v := by
  obtain ⟨terms, p, moreTerms, v, x, rfl, hp, rfl⟩ := exists_front ho c h
  obtain ⟨factors, q, moreFactors, v', x', rfl, hq, rfl⟩ := exists_front ho p hp
  obtain ⟨operands, r, moreOperands, v'', x'', rfl, hr, rfl⟩ := exists_front ho q hq
  exact ⟨⟨terms, factors, operands, moreOperands, moreFactors, moreTerms⟩, r, v'', x'', rfl, hr,
    by simp [Slot.before]⟩

/-- The opening bracket is the first token of a group that is the primary. -/
def Opens (o : Token) (p : Phrase .primary) : Prop :=
  ∃ ho body closing hc, p = .group o ho body closing hc

/-- **An opening bracket of a right side opens a group in it.** -/
theorem Phrase.exists_spot {o : Token} (ho : o.kind.isOpening = true) (c : Phrase (.chain .sum))
    {u w : List Token} (h : c.tokens = u ++ o :: w) :
    ∃ (s : Spot) (p : Phrase .primary), Opens o p ∧ c = s.fill p ∧ s.before = u := by
  -- between two brackets fewer tokens stand before it
  induction hn : u.length using Nat.strongRecOn generalizing c u w with
  | ind n ih =>
    obtain ⟨s, p, v, x, rfl, hp, rfl⟩ := c.exists_slot ho h
    cases p with
    | leaf t ht =>
      have hleaf : ∀ u ∈ [t], u.kind.isOpening = false := by
        simpa using Kind.not_isOpening_of_isOperand ht
      exact absurd ⟨x, hp⟩ (not_mem_of_kind ho hleaf)
    | group opening hopening body closing hc =>
      cases v with
      | nil =>
        obtain ⟨rfl, -⟩ := List.cons.inj hp
        exact ⟨.whole s, _, ⟨hopening, body, closing, hc, rfl⟩, rfl, (List.append_nil _).symm⟩
      | cons t v =>
        obtain ⟨rfl, hrest⟩ := List.cons.inj hp
        have hclosing : ∀ t ∈ [closing], t.kind.isOpening = false := by
          rcases hc with hc | hc <;> simp [hc, Kind.isOpening]
        obtain ⟨x', hbody⟩ := exists_of_append_eq_right ho hclosing hrest
        have hlt : v.length < n := by
          rw [← hn]
          simp
          omega
        obtain ⟨inner, q, hq, rfl, rfl⟩ := ih v.length hlt body hbody rfl
        exact ⟨.nested s opening hopening inner closing hc, q, hq, rfl, rfl⟩

/-- A token of lines that is no line feed belongs to the content of one of them. -/
theorem Line.exists_of_allTokens {α : Type} {f : α → List Token} {o : Token} {q : Kind → Bool}
    (ho : q o.kind = true) (hq : q .newline = false) : ∀ {ls : List (Line α)} {u w : List Token},
      allTokens f ls = u ++ o :: w → ∃ earlier l later v x,
        ls = earlier ++ l :: later ∧ f l.content = v ++ o :: x ∧ u = allTokens f earlier ++ v
  | [], u, w, h => by simp [allTokens] at h
  | l :: ls, u, w, h => by
    have hbreaks : ∀ t ∈ l.breaks, q t.kind = false := fun t ht => by rw [l.breaks_kind t ht, hq]
    rcases exists_of_append_eq (show l.tokens f ++ allTokens f ls = u ++ o :: w from h) with
      ⟨w', hl⟩ | ⟨u', rfl, hls⟩
    · obtain ⟨x, hx⟩ := exists_of_append_eq_right ho hbreaks hl
      exact ⟨[], l, ls, u, x, rfl, hx, rfl⟩
    · obtain ⟨earlier, m, later, v, x, rfl, hm, rfl⟩ := exists_of_allTokens ho hq hls
      exact ⟨l :: earlier, m, later, v, x, rfl, hm, by simp [allTokens]⟩

theorem Line.forall_opening {q : Kind → Bool} (hbegin : q .beginWord = false)
    (hnewline : q .newline = false) (l : Line (Terminal .beginWord)) :
    ∀ t ∈ l.tokens fun t => [t.1], q t.kind = false := by
  refine List.forall_mem_append.mpr ⟨List.forall_mem_singleton.mpr ?_, fun t ht => ?_⟩
  · rw [l.content.2, hbegin]
  · rw [l.breaks_kind t ht, hnewline]

/-- **A token of a derivation** that is neither `begin` nor `end` nor a line feed stands
in a definition or in an assignment. -/
theorem Derivation.exists_statement {d : Derivation} {o : Token} {q : Kind → Bool}
    (ho : q o.kind = true) (hbegin : q .beginWord = false) (hnewline : q .newline = false)
    (hend : q .endWord = false) {u w : List Token} (h : d.tokens = u ++ o :: w) :
    (∃ earlier l later v x, d.body.definitions = earlier ++ l :: later ∧
      l.content.tokens = v ++ o :: x ∧
      u = d.body.opening.tokens (fun t => [t.1]) ++
        Line.allTokens DefinitionLine.tokens earlier ++ v) ∨
    ∃ earlier l later v x, d.body.assignments = earlier ++ l :: later ∧
      l.content.tokens = v ++ o :: x ∧
      u = d.body.opening.tokens (fun t => [t.1]) ++
        Line.allTokens DefinitionLine.tokens d.body.definitions ++
        Line.allTokens AssignmentLine.tokens earlier ++ v := by
  have hclosing : ∀ t ∈ [d.closing.1], q t.kind = false := by
    rw [List.forall_mem_singleton, d.closing.2, hend]
  obtain ⟨x, hx⟩ := exists_of_append_eq_right ho hclosing h
  rcases exists_of_append_eq hx with ⟨y, hy⟩ | ⟨u', rfl, hu'⟩
  · obtain ⟨v, rfl, hv⟩ := exists_of_append_eq_left ho
      (d.body.opening.forall_opening hbegin hnewline) hy
    obtain ⟨earlier, l, later, v', x', hl, hcontent, rfl⟩ := Line.exists_of_allTokens ho hnewline hv
    exact .inl ⟨earlier, l, later, v', x', hl, hcontent, (List.append_assoc _ _ _).symm⟩
  · obtain ⟨earlier, l, later, v', x', hl, hcontent, rfl⟩ :=
      Line.exists_of_allTokens ho hnewline hu'
    exact .inr ⟨earlier, l, later, v', x', hl, hcontent, (List.append_assoc _ _ _).symm⟩

/-- No bracket stands before the right side of an assignment. -/
theorem AssignmentLine.exists_expr {o : Token} (ho : o.kind.isOpening = true)
    {a : AssignmentLine} {u w : List Token} (h : a.tokens = u ++ o :: w) :
    ∃ v x, a.expr.tokens = v ++ o :: x ∧ u = a.labelTokens ++ [a.target.1, a.equals.1] ++ v := by
  have hlabel : ∀ t ∈ a.labelTokens, t.kind.isOpening = false := by
    unfold labelTokens
    split
    · next l colon _ => simp [l.2, colon.2, Kind.isOpening]
    · simp
  have hhead : ∀ t ∈ a.labelTokens ++ [a.target.1, a.equals.1], t.kind.isOpening = false :=
    List.forall_mem_append.mpr ⟨hlabel, by simp [a.target.2, a.equals.2, Kind.isOpening]⟩
  obtain ⟨v, rfl, hv⟩ := exists_of_append_eq_left (y := a.expr.tokens) ho hhead
    (by simpa [tokens] using h)
  exact ⟨v, w, hv, rfl⟩

/-- Definitions have no brackets. -/
theorem DefinitionLine.not_isOpening (d : DefinitionLine) :
    ∀ t ∈ d.tokens, t.kind.isOpening = false := by
  rcases d.kinds with ⟨hk, hi⟩ | ⟨hk, hi⟩ <;>
    exact List.forall_mem_cons.mpr ⟨by rw [hk]; rfl, fun t ht => by rw [hi t ht]; rfl⟩

/-- **Every opening bracket of a derivation opens a group in it.** -/
theorem Derivation.exists_setting {d : Derivation} {o : Token} (ho : o.kind.isOpening = true)
    {u w : List Token} (h : d.tokens = u ++ o :: w) :
    ∃ (s : Setting) (p : Phrase .primary), Opens o p ∧ d = s.fill p ∧ s.before = u := by
  rcases d.exists_statement ho rfl rfl rfl h with ⟨_, l, _, _, x, _, hl, _⟩ |
    ⟨earlier, l, later, v, x, hassignments, hl, rfl⟩
  · exact absurd ⟨x, hl⟩ (not_mem_of_kind ho l.content.not_isOpening)
  · obtain ⟨⟨opening, definitions, assignments⟩, closing⟩ := d
    obtain rfl : assignments = earlier ++ l :: later := hassignments
    obtain ⟨v', x', hexpr, rfl⟩ := AssignmentLine.exists_expr ho hl
    obtain ⟨spot, p, hp, hfill, rfl⟩ := l.content.expr.exists_spot ho hexpr
    refine ⟨⟨⟨opening, definitions, earlier⟩, l.content.label, l.content.target, l.content.equals,
      spot, l.breaks, l.breaks_ne_nil, l.breaks_kind, later, closing⟩, p, hp, ?_, ?_⟩
    · simp only [Setting.fill, Setting.line, ← hfill]
    · simp only [Setting.before, Setting.headTokens, Body.tokens, List.append_assoc]
      rfl

end AssignLang
