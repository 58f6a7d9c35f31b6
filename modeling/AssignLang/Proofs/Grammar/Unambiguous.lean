/-
# Phrases are unambiguous

Two phrases with the same tokens are the same phrase. A phrase is taken apart
from its right end: its last operand is settled first, then the sign before it,
and then the chain that is left. What decides where a phrase begins is the token
before it: `Symbol.Detached` says that this token could not belong to a longer
phrase of the sort.

Key definitions: `Symbol.joins`, `Symbol.Detached`.
Key theorems: `Phrase.eq_of_append_tokens_eq`, `Phrase.tokens_inj`.
-/
import AssignLang.Proofs.Grammar.Phrase

namespace AssignLang
namespace Symbol

/-- Whether a token right before a phrase can belong to a longer phrase of the
sort. -/
def joins : Symbol → Kind → Bool
  | primary, _ => false
  | chain .power, k => k.level? == some .power
  | chain .product, k => k.level? == some .power || k.level? == some .product
  | chain .sum, k => k.level?.isSome || k.endsOperand

/-- No phrase of the sort reaches back into the tokens before it. -/
def Detached (s : Symbol) (u : List Token) : Prop := ∀ t ∈ u.getLast?, s.joins t.kind = false

theorem detached_nil (s : Symbol) : s.Detached [] := by simp [Detached]

theorem detached_concat {s : Symbol} {u : List Token} {t : Token} :
    s.Detached (u ++ [t]) ↔ s.joins t.kind = false := by
  simp [Detached]

/-- What joins an operand of a chain joins the chain. -/
theorem joins_of_joins_operand {level : Level} {k : Kind} (h : level.operand.joins k = true) :
    (chain level).joins k = true := by
  cases level with
  | power => simp [joins] at h
  | product => simpa [joins] using Or.inl h
  | sum =>
    simp only [joins, Bool.or_eq_true, beq_iff_eq] at h ⊢
    rcases h with h | h <;> simp [h]

theorem Detached.operand {level : Level} {u : List Token} (h : (chain level).Detached u) :
    level.operand.Detached u := by
  intro t ht
  cases hj : level.operand.joins t.kind with
  | false => rfl
  | true => rw [← h t ht, joins_of_joins_operand hj]

/-- A sign of a level joins the chains of the level. -/
theorem joins_sign (level : Level) : (chain level).joins level.sign = true := by
  cases level <;> rfl

/-- A sign of a level does not join an operand of the level. -/
theorem joins_operand_sign (level : Level) : level.operand.joins level.sign = false := by
  cases level <;> rfl

theorem detached_operand_concat {level : Level} {t : Token} (u : List Token)
    (h : t.kind = level.sign) : level.operand.Detached (u ++ [t]) := by
  rw [detached_concat, h, joins_operand_sign]

/-- A minus sign may stand before a product. -/
theorem detached_product_minus {t : Token} (u : List Token)
    (h : t.kind = .additive ∧ t.text = "-") : (chain .product).Detached (u ++ [t]) :=
  detached_concat.mpr (by rw [h.1]; rfl)

theorem not_detached_sign {level : Level} {t : Token} {u : List Token}
    (h : t.kind = level.sign) : ¬ (chain level).Detached (u ++ [t]) := fun hd => by
  rw [detached_concat, h, joins_sign] at hd
  cases hd

/-- A sum cannot follow a phrase. -/
theorem not_detached_tokens {s : Symbol} (u : List Token) (p : Phrase s) :
    ¬ (chain .sum).Detached (u ++ p.tokens) := fun hd => by
  obtain ⟨v, t, hp, ht⟩ := p.exists_last
  rw [hp, ← List.append_assoc, detached_concat] at hd
  simp [joins, ht] at hd

end Symbol

namespace Kind

/-- What is an operand by itself closes no bracket. -/
theorem not_closing_of_isOperand {k : Kind} (h : k.isOperand = true) :
    ¬ (k = parenRight ∨ k = bracketRight) := by
  revert h
  cases k <;> decide

end Kind

namespace Phrase

/-- **A phrase is determined by its tokens**, and so is the place where it begins
if nothing before it can belong to it. -/
theorem eq_of_append_tokens_eq : ∀ {s : Symbol} (p q : Phrase s) {u v : List Token},
    s.Detached u → s.Detached v → u ++ p.tokens = v ++ q.tokens → u = v ∧ p = q
  | _, leaf t _, leaf t' _, u, v, _, _, h => by
    obtain ⟨hu, rfl⟩ := List.append_singleton_inj.mp h
    exact ⟨hu, rfl⟩
  | _, leaf t ht, group o ho body c hc, u, v, _, _, h => by
    have h' : u ++ [t] = (v ++ o :: body.tokens) ++ [c] := by simpa [tokens] using h
    obtain ⟨-, rfl⟩ := List.append_singleton_inj.mp h'
    exact absurd hc (Kind.not_closing_of_isOperand ht)
  | _, group o ho body c hc, leaf t ht, u, v, _, _, h => by
    have h' : v ++ [t] = (u ++ o :: body.tokens) ++ [c] := by simpa [tokens] using h.symm
    obtain ⟨-, rfl⟩ := List.append_singleton_inj.mp h'
    exact absurd hc (Kind.not_closing_of_isOperand ht)
  | _, group o ho body c hc, group o' ho' body' c' hc', u, v, _, _, h => by
    have h' : ((u ++ [o]) ++ body.tokens) ++ [c] = ((v ++ [o']) ++ body'.tokens) ++ [c'] := by
      simpa [tokens] using h
    obtain ⟨hb, rfl⟩ := List.append_singleton_inj.mp h'
    have hd : ∀ (w : List Token) (x : Token), x.kind = .parenLeft ∨ x.kind = .bracketLeft →
        (Symbol.chain .sum).Detached (w ++ [x]) := by
      intro w x hx
      rw [Symbol.detached_concat]
      revert hx
      cases x.kind <;> decide
    obtain ⟨hu, rfl⟩ := eq_of_append_tokens_eq body body' (hd u o ho) (hd v o' ho') hb
    obtain ⟨rfl, rfl⟩ := List.append_singleton_inj.mp hu
    exact ⟨rfl, rfl⟩
  | _, single first, single first', u, v, hu, hv, h => by
    obtain ⟨rfl, rfl⟩ := eq_of_append_tokens_eq first first' hu.operand hv.operand h
    exact ⟨rfl, rfl⟩
  | _, single first, more left sign hs right, u, v, hu, hv, h => by
    have h' : u ++ first.tokens = (v ++ left.tokens ++ [sign]) ++ right.tokens := by
      simpa [tokens] using h
    obtain ⟨rfl, -⟩ := eq_of_append_tokens_eq first right hu.operand
      (Symbol.detached_operand_concat _ hs) h'
    exact absurd hu (Symbol.not_detached_sign hs)
  | _, more left sign hs right, single first, u, v, hu, hv, h => by
    have h' : (u ++ left.tokens ++ [sign]) ++ right.tokens = v ++ first.tokens := by
      simpa [tokens] using h
    obtain ⟨rfl, -⟩ := eq_of_append_tokens_eq right first
      (Symbol.detached_operand_concat _ hs) hv.operand h'
    exact absurd hv (Symbol.not_detached_sign hs)
  | _, more left sign hs right, more left' sign' hs' right', u, v, hu, hv, h => by
    have h' : (u ++ left.tokens ++ [sign]) ++ right.tokens =
        (v ++ left'.tokens ++ [sign']) ++ right'.tokens := by
      simpa [tokens] using h
    obtain ⟨hr, rfl⟩ := eq_of_append_tokens_eq right right'
      (Symbol.detached_operand_concat _ hs) (Symbol.detached_operand_concat _ hs') h'
    obtain ⟨hl, rfl⟩ := List.append_singleton_inj.mp hr
    obtain ⟨rfl, rfl⟩ := eq_of_append_tokens_eq left left' hu hv hl
    exact ⟨rfl, rfl⟩
  | _, single first, negated minus hm first', u, v, hu, hv, h => by
    have h' : u ++ first.tokens = (v ++ [minus]) ++ first'.tokens := by simpa [tokens] using h
    obtain ⟨rfl, -⟩ := eq_of_append_tokens_eq first first' hu.operand
      (Symbol.detached_product_minus _ hm) h'
    exact absurd hu (Symbol.not_detached_sign hm.1)
  | _, negated minus hm first, single first', u, v, hu, hv, h => by
    have h' : (u ++ [minus]) ++ first.tokens = v ++ first'.tokens := by simpa [tokens] using h
    obtain ⟨rfl, -⟩ := eq_of_append_tokens_eq first first'
      (Symbol.detached_product_minus _ hm) hv.operand h'
    exact absurd hv (Symbol.not_detached_sign hm.1)
  | _, negated minus hm first, negated minus' hm' first', u, v, hu, hv, h => by
    have h' : (u ++ [minus]) ++ first.tokens = (v ++ [minus']) ++ first'.tokens := by
      simpa [tokens] using h
    obtain ⟨hl, rfl⟩ := eq_of_append_tokens_eq first first'
      (Symbol.detached_product_minus _ hm) (Symbol.detached_product_minus _ hm') h'
    obtain ⟨rfl, rfl⟩ := List.append_singleton_inj.mp hl
    exact ⟨rfl, rfl⟩
  | _, negated minus hm first, more left sign hs right, u, v, hu, hv, h => by
    -- the minus sign is the binary one, so a phrase would stand right before it
    have h' : (u ++ [minus]) ++ first.tokens = (v ++ left.tokens ++ [sign]) ++ right.tokens := by
      simpa [tokens] using h
    obtain ⟨hl, -⟩ := eq_of_append_tokens_eq first right
      (Symbol.detached_product_minus _ hm) (Symbol.detached_operand_concat _ hs) h'
    obtain ⟨rfl, -⟩ := List.append_singleton_inj.mp hl
    exact absurd hu (Symbol.not_detached_tokens _ left)
  | _, more left sign hs right, negated minus hm first, u, v, hu, hv, h => by
    have h' : (u ++ left.tokens ++ [sign]) ++ right.tokens = (v ++ [minus]) ++ first.tokens := by
      simpa [tokens] using h
    obtain ⟨hl, -⟩ := eq_of_append_tokens_eq right first
      (Symbol.detached_operand_concat _ hs) (Symbol.detached_product_minus _ hm) h'
    obtain ⟨rfl, -⟩ := List.append_singleton_inj.mp hl
    exact absurd hv (Symbol.not_detached_tokens _ left)

theorem tokens_inj {s : Symbol} {p q : Phrase s} (h : p.tokens = q.tokens) : p = q :=
  (eq_of_append_tokens_eq p q s.detached_nil s.detached_nil h).2

end Phrase
end AssignLang
