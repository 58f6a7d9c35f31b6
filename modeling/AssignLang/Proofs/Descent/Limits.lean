/-
# Raising the limit

The limit of a descent takes no part in what it does. A part of a descent that was not
given up does the same under a higher limit (`Walk.Below`), for that is so of loops if it
is so of what they repeat, and every rule puts parts together.

Key definitions: `Walk.Below`.
Key theorems: `Walk.Below.bind`, `Walk.Below.loop`, `program_below`.
-/
import AssignLang.Proofs.Descent.Cursor

namespace AssignLang
namespace Descent

variable {α β σ : Type}

/-- Whatever `x` comes to, `y` comes to. -/
def Walk.Below (x y : Walk α) : Prop :=
  ∀ ts c o, x.run ts c = some o → y.run ts c = some o

namespace Walk.Below

theorem refl (x : Walk α) : x.Below x := fun _ _ _ h => h

theorem giveUp (y : Walk α) : Below giveUp y := by
  intro ts c o h
  cases h

theorem bind {x x' : Walk α} {f f' : α → Walk β} (hx : x.Below x')
    (hf : ∀ a, (f a).Below (f' a)) : (x >>= f).Below (x' >>= f') := by
  intro ts c o h
  cases hrun : x.run ts c with
  | none =>
    rw [run_bind, hrun] at h
    cases h
  | some p =>
    have hrun' := hx ts c p hrun
    obtain ⟨result, c'⟩ := p
    cases result with
    | ok a =>
      rw [run_bind_of_ok hrun] at h
      rw [run_bind_of_ok hrun']
      exact hf a ts c' o h
    | error stop =>
      rw [run_bind_of_error hrun] at h
      rw [run_bind_of_error hrun']
      exact h

theorem ite {p : Prop} [Decidable p] {x x' y y' : Walk α} (hx : x.Below x') (hy : y.Below y') :
    (if p then x else y).Below (if p then x' else y') := by
  by_cases hp : p
  · rwa [if_pos hp, if_pos hp]
  · rwa [if_neg hp, if_neg hp]

theorem turn (round : Round) {x x' : Walk α} (hx : x.Below x') :
    (turn round x).Below (turn round x') :=
  bind (refl _) fun _ => bind hx fun _ => refl _

/-- **A loop does the same under a higher limit** if its parts do. -/
theorem loop (round : Round) {again again' : Walk Bool} {step step' : σ → Walk σ}
    (hagain : again.Below again') (hstep : ∀ s, (step s).Below (step' s)) :
    ∀ {limit limit' : Nat}, limit ≤ limit' → ∀ s,
      (loop round again step limit s).Below (loop round again' step' limit' s)
  | 0, _, _, _ => giveUp _
  | limit + 1, 0, h, _ => absurd h (Nat.not_succ_le_zero limit)
  | limit + 1, limit' + 1, h, s => by
    have hrest := loop round hagain hstep (Nat.le_of_succ_le_succ h)
    exact bind hagain fun more => ite (bind (turn round (hstep s)) hrest) (refl _)

end Walk.Below

variable {limit limit' : Nat} (h : limit ≤ limit')

/-! ### Expressions -/

theorem primary_below {x x' : Walk Expr} (hx : x.Below x') : (primary x).Below (primary x') := by
  refine .bind (.refl _) fun t => ?_
  split
  · exact .refl _
  · exact .refl _
  · exact .refl _
  · exact .ite (.bind (.refl _) fun _ => .bind hx fun _ => .refl _) (.refl _)

section
include h

theorem links_below (level : Level) {x x' : Walk Expr} (hx : x.Below x') (e : Expr) :
    (links limit level x e).Below (links limit' level x' e) := by
  refine .loop _ (.refl _) (fun e => .bind (.refl _) fun p => ?_) h e
  obtain ⟨t, op⟩ := p
  exact .bind hx fun _ => .refl _

theorem chain_below (level : Level) {x x' : Walk Expr} (hx : x.Below x') :
    (chain limit level x).Below (chain limit' level x') :=
  .bind hx (links_below h level hx)

theorem product_below {x x' : Walk Expr} (hx : x.Below x') :
    (product limit x).Below (product limit' x') :=
  chain_below h .product (chain_below h .power (primary_below hx))

theorem sum_below {x x' : Walk Expr} (hx : x.Below x') :
    (sum limit x).Below (sum limit' x') := by
  have hproduct := product_below h hx
  refine .bind (.refl _) fun found => ?_
  cases found with
  | some t => exact .bind hproduct fun _ => links_below h .sum hproduct _
  | none => exact .bind hproduct (links_below h .sum hproduct)

theorem expression_below : ∀ {depth depth' : Nat}, depth ≤ depth' →
    (expression limit depth).Below (expression limit' depth')
  | 0, _, _ => .giveUp _
  | depth + 1, 0, hdepth => absurd hdepth (Nat.not_succ_le_zero depth)
  | _ + 1, _ + 1, hdepth => sum_below h (expression_below (Nat.le_of_succ_le_succ hdepth))

/-! ### Lines -/

theorem skipLineFeeds_below : (skipLineFeeds limit).Below (skipLineFeeds limit') :=
  .loop _ (.refl _) (fun _ => .refl _) h ()

theorem beginLine_below (message : String) :
    (beginLine limit message).Below (beginLine limit' message) :=
  .bind (skipLineFeeds_below h) fun _ => .refl _

theorem items_below (round : Round) (k : Kind) (item : Walk α) :
    (items limit round k item).Below (items limit' round k item) :=
  .bind (.refl _) (.loop _ (.refl _) (fun _ => .refl _) h)

theorem definition_below : (definition limit).Below (definition limit') := by
  refine .bind (.refl _) fun keyword => .bind (.ite ?_ ?_) fun _ => .refl _
  · exact .bind (items_below h _ _ _) fun _ => .refl _
  · exact .bind (items_below h _ _ _) fun _ => .refl _

theorem assignment_below : (assignment limit).Below (assignment limit') :=
  .bind (.refl _) fun _ => .bind (.refl _) fun _ => .bind (.refl _) fun _ =>
    .bind (expression_below h h) fun _ => .refl _

theorem definitions_below : (definitions limit).Below (definitions limit') := by
  refine .loop _ (.bind (skipLineFeeds_below h) fun _ => .refl _) (fun ds => ?_) h _
  exact .bind (beginLine_below h _) fun _ => .bind (definition_below h) fun _ => .refl _

theorem assignments_below : (assignments limit).Below (assignments limit') := by
  refine .loop _ (.refl _) (fun as => ?_) h _
  exact .bind (beginLine_below h _) fun _ => .bind (assignment_below h) fun _ =>
    .bind (skipLineFeeds_below h) fun _ => .refl _

/-- **A descent that is not given up does not depend on its limit.** -/
theorem program_below : (program limit).Below (program limit') := by
  refine .bind (.bind (.refl _) fun _ => .bind (definitions_below h) fun ds => ?_) fun _ => .refl _
  exact .bind (skipLineFeeds_below h) fun _ => .bind (assignments_below h) fun _ =>
    .bind (beginLine_below h _) fun _ => .refl _

end
end Descent
end AssignLang
