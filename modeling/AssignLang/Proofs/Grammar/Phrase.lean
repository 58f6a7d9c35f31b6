/-
# The grammar of expressions

An expression is a sum of products of powers of primaries. A chain of one of
the three levels is an operand of the level, or a chain of the level followed by
one of its signs and one more operand; so the tree of a chain leans to the left.
A sum may open with a minus sign, which takes the whole first product. A primary
is a literal, a name, or a sum between two brackets of any kind.

A `Phrase` is a derivation in this grammar, matched by the kinds of the tokens
alone: what their texts say is left to `Phrase.expr?`, which gives the
expression that the phrase stands for if every literal and every sign of it has
a text that means something.

Key definitions: `Phrase`, `Phrase.tokens`, `Phrase.expr?`, `Token.Spelt`.
Key theorems: `Phrase.isSome_expr?_iff`, `Phrase.inExpression_of_mem`,
`Phrase.exists_last`.
-/
import AssignLang.Program.Frame
import AssignLang.Number.Numeral

namespace AssignLang

namespace Kind

/-- The kinds that are an operand by themselves. -/
def isOperand (k : Kind) : Bool := k == literalInt || k == literalReal || k == identifier

/-- The kinds an operand can end with. -/
def endsOperand (k : Kind) : Bool := k.isOperand || k.isClosing

/-- The kinds that occur in expressions. -/
def inExpression (k : Kind) : Bool :=
  k.isOperand || k.isOpening || k.isClosing || k.level?.isSome

theorem isOpening_iff {k : Kind} : k.isOpening = true ↔ k = parenLeft ∨ k = bracketLeft := by
  cases k <;> decide

theorem isClosing_iff {k : Kind} : k.isClosing = true ↔ k = parenRight ∨ k = bracketRight := by
  cases k <;> decide

end Kind

/-- The kind of the signs of a level. -/
def Level.sign : Level → Kind
  | .power => .exponentiation
  | .product => .multiplicative
  | .sum => .additive

theorem Kind.level?_eq_some_iff {k : Kind} {level : Level} :
    k.level? = some level ↔ k = level.sign := by
  cases k <;> cases level <;> decide

/-- A token of a given kind. -/
abbrev Terminal (k : Kind) : Type := {t : Token // t.kind = k}

/-- The sorts of phrase: a primary, or a chain of operands of a level. -/
inductive Symbol
  | primary
  | chain (level : Level)

/-- What the signs of a level stand between. -/
@[reducible]
def Level.operand : Level → Symbol
  | .power => .primary
  | .product => .chain .power
  | .sum => .chain .product

/-- The derivations of the grammar of expressions. -/
inductive Phrase : Symbol → Type
  /-- A literal or a name. -/
  | leaf (t : Token) (ht : t.kind.isOperand = true) : Phrase .primary
  /-- A sum in brackets; either closing bracket goes with either opening one. -/
  | group (opening : Token) (ho : opening.kind = .parenLeft ∨ opening.kind = .bracketLeft)
      (body : Phrase (.chain .sum)) (closing : Token)
      (hc : closing.kind = .parenRight ∨ closing.kind = .bracketRight) : Phrase .primary
  /-- A chain of one operand. -/
  | single {level : Level} (first : Phrase level.operand) : Phrase (.chain level)
  /-- A sum of one product with a minus sign before it. -/
  | negated (minus : Token) (hm : minus.kind = .additive ∧ minus.text = "-")
      (first : Phrase (.chain .product)) : Phrase (.chain .sum)
  /-- A chain with one more operand. -/
  | more {level : Level} (left : Phrase (.chain level)) (sign : Token)
      (hs : sign.kind = level.sign) (right : Phrase level.operand) : Phrase (.chain level)

/-- The literal that a token is, if its text is a numeral. -/
def Literal.read? (t : Token) : Option Literal :=
  match Numeral.read t.text with
  | .ok x => some ⟨t, x⟩
  | .error _ => none

/-- The expression that a token is by itself. -/
def Expr.leaf? (t : Token) : Option Expr :=
  match t.kind with
  | .literalInt => (Literal.read? t).map .integer
  | .literalReal => (Literal.read? t).map .real
  | .identifier => some (.name t)
  | _ => none

/-- The text of a literal token is a numeral, and that of a sign is an
operator. -/
def Token.Spelt (t : Token) : Prop :=
  (t.kind = .literalInt ∨ t.kind = .literalReal → ∃ x, Numeral.read t.text = .ok x) ∧
  (t.kind = .additive ∨ t.kind = .multiplicative ∨ t.kind = .exponentiation →
    t.text ∈ ["+", "-", "*", "/", "^"])

theorem BinaryOp.isSome_ofSymbol?_iff {text : String} :
    (∃ op, ofSymbol? text = some op) ↔ text ∈ ["+", "-", "*", "/", "^"] := by
  have htext : ∀ op : BinaryOp, String.ofList [op.symbol] ∈ ["+", "-", "*", "/", "^"] := by
    intro op
    cases op <;> decide
  constructor
  · rintro ⟨op, h⟩
    rw [ofSymbol?_eq_some_iff] at h
    rw [← String.ofList_toList (s := text), h]
    exact htext op
  · intro h
    simp only [List.mem_cons, List.not_mem_nil, or_false] at h
    rcases h with rfl | rfl | rfl | rfl | rfl
    · exact ⟨add, rfl⟩
    · exact ⟨subtract, rfl⟩
    · exact ⟨multiply, rfl⟩
    · exact ⟨divide, rfl⟩
    · exact ⟨power, rfl⟩

theorem Literal.read?_eq_some_iff {t : Token} {l : Literal} :
    Literal.read? t = some l ↔ l.token = t ∧ Numeral.read t.text = .ok l.value := by
  unfold read?
  cases Numeral.read t.text with
  | error e => simp
  | ok x =>
    constructor
    · intro h
      cases h
      exact ⟨rfl, rfl⟩
    · rintro ⟨rfl, h⟩
      cases h
      rfl

theorem Literal.isSome_read?_iff {t : Token} :
    (Literal.read? t).isSome ↔ ∃ x, Numeral.read t.text = .ok x := by
  unfold read?
  cases Numeral.read t.text <;> simp

namespace Token

/-- Only literals and signs have to be spelt. -/
theorem spelt_of_kind {t : Token} {k : Kind} (h : t.kind = k)
    (hk : k ∉ [Kind.literalInt, .literalReal, .additive, .multiplicative, .exponentiation]) :
    t.Spelt := by
  refine ⟨fun hl => absurd h ?_, fun hs => absurd h ?_⟩
  · rintro rfl
    rcases hl with hl | hl <;> simp [hl] at hk
  · rintro rfl
    rcases hs with hs | hs | hs <;> simp [hs] at hk

theorem isSome_leaf?_iff {t : Token} (h : t.kind.isOperand = true) :
    (Expr.leaf? t).isSome ↔ t.Spelt := by
  simp only [Kind.isOperand, Bool.or_eq_true, beq_iff_eq] at h
  rcases h with (h | h) | h <;>
    simp [Expr.leaf?, h, Spelt, Literal.isSome_read?_iff]

theorem spelt_sign_iff {t : Token} {level : Level} (h : t.kind = level.sign) :
    t.Spelt ↔ ∃ op, BinaryOp.ofSymbol? t.text = some op := by
  rw [BinaryOp.isSome_ofSymbol?_iff]
  have hk : t.kind = .additive ∨ t.kind = .multiplicative ∨ t.kind = .exponentiation := by
    rw [h]
    cases level <;> decide
  constructor
  · exact fun hs => hs.2 hk
  · refine fun hs => ⟨fun hl => ?_, fun _ => hs⟩
    rcases hk with hk | hk | hk <;> simp [hk] at hl

end Token

namespace Phrase

/-- The tokens of a phrase, from left to right. -/
def tokens : {s : Symbol} → Phrase s → List Token
  | _, leaf t _ => [t]
  | _, group opening _ body closing _ => opening :: body.tokens ++ [closing]
  | _, single first => first.tokens
  | _, negated minus _ first => minus :: first.tokens
  | _, more left sign _ right => left.tokens ++ sign :: right.tokens

/-- The expression that a phrase stands for. Brackets leave nothing; a sign is
the operator that its text says. -/
def expr? : {s : Symbol} → Phrase s → Option Expr
  | _, leaf t _ => Expr.leaf? t
  | _, group _ _ body _ _ => body.expr?
  | _, single first => first.expr?
  | _, negated minus _ first => first.expr?.map (.negate minus)
  | _, more left sign _ right =>
    left.expr?.bind fun a =>
      (BinaryOp.ofSymbol? sign.text).bind fun op =>
        right.expr?.map fun b => .binary op sign a b

/-- A phrase stands for an expression exactly when its literals are numerals and
its signs are operators. -/
theorem isSome_expr?_iff : ∀ {s : Symbol} (p : Phrase s),
    p.expr?.isSome ↔ ∀ t ∈ p.tokens, t.Spelt
  | _, leaf t ht => by simpa [expr?, tokens] using Token.isSome_leaf?_iff ht
  | _, group opening ho body closing hc => by
    have hopen : opening.Spelt := Token.spelt_of_kind rfl (by revert ho; cases opening.kind <;> decide)
    have hclose : closing.Spelt := Token.spelt_of_kind rfl (by revert hc; cases closing.kind <;> decide)
    simp [expr?, tokens, isSome_expr?_iff body, or_imp, forall_and, hopen, hclose]
  | _, single first => isSome_expr?_iff first
  | _, negated minus hm first => by
    have hminus : minus.Spelt := by
      refine ⟨fun h => ?_, fun _ => by simp [hm.2]⟩
      rcases h with h | h <;> simp [hm.1] at h
    simp [expr?, tokens, isSome_expr?_iff first, hminus]
  | _, more left sign hs right => by
    have hl := isSome_expr?_iff left
    have hr := isSome_expr?_iff right
    have hsign := Token.spelt_sign_iff hs
    simp only [tokens, List.mem_append, List.mem_cons, or_imp, forall_and, forall_eq, ← hl, ← hr,
      hsign, expr?]
    cases left.expr? <;> cases BinaryOp.ofSymbol? sign.text <;> cases right.expr? <;> simp

/-- Every token of a phrase has a kind that occurs in expressions. -/
theorem inExpression_of_mem : ∀ {s : Symbol} (p : Phrase s) {t : Token}, t ∈ p.tokens →
    t.kind.inExpression = true
  | _, leaf u hu, t, h => by
    obtain rfl : t = u := by simpa [tokens] using h
    simp [Kind.inExpression, hu]
  | _, group opening ho body closing hc, t, h => by
    simp only [tokens, List.cons_append, List.mem_cons, List.mem_append, List.not_mem_nil,
      or_false] at h
    rcases h with rfl | h | rfl
    · simp [Kind.inExpression, Kind.isOpening_iff.mpr ho]
    · exact inExpression_of_mem body h
    · simp [Kind.inExpression, Kind.isClosing_iff.mpr hc]
  | _, single first, _, h => inExpression_of_mem first h
  | _, negated minus hm first, t, h => by
    rcases List.mem_cons.mp h with rfl | h
    · rw [hm.1]
      rfl
    · exact inExpression_of_mem first h
  | _, more left sign hs right, t, h => by
    simp only [tokens, List.mem_append, List.mem_cons] at h
    rcases h with h | rfl | h
    · exact inExpression_of_mem left h
    · simp [Kind.inExpression, Kind.level?_eq_some_iff.mpr hs]
    · exact inExpression_of_mem right h

/-- A phrase ends with a token that ends an operand. -/
theorem exists_last : ∀ {s : Symbol} (p : Phrase s),
    ∃ u t, p.tokens = u ++ [t] ∧ t.kind.endsOperand = true
  | _, leaf t ht => ⟨[], t, rfl, by simp [Kind.endsOperand, ht]⟩
  | _, group opening _ body closing hc =>
    ⟨opening :: body.tokens, closing, rfl, by simp [Kind.endsOperand, Kind.isClosing_iff.mpr hc]⟩
  | _, single first => exists_last first
  | _, negated minus _ first => by
    obtain ⟨u, t, h, ht⟩ := exists_last first
    exact ⟨minus :: u, t, by simp [tokens, h], ht⟩
  | _, more left sign _ right => by
    obtain ⟨u, t, h, ht⟩ := exists_last right
    exact ⟨left.tokens ++ sign :: u, t, by simp [tokens, h], ht⟩

end Phrase
end AssignLang
