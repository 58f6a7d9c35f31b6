/-
# The cursor of a descent

Before the first end of the text the cursor moves as it should: each call of `advance`
goes on by one token, so the next token is the one whose number is the number of calls
(`Tidy`), and no token is looked for outside the list. At the end itself the cursor
stays or leaves the text, and no call comes after that one.

Key definitions: `FirstEnd`, `Tidy`, `Cursor.next`.
Key theorems: `Walk.run_bind`, `run_peek`, `run_advance`, `run_advance_end`,
`run_refuse`.
-/
import Mathlib.Data.List.Find
import AssignLang.Proofs.Descent.Rules

namespace AssignLang
namespace Descent

variable {α β : Type} {ts : List Token} {e : Nat} {c c' : Cursor} {t : Token}

/-! ### Parts of a descent -/

namespace Walk

theorem run_pure (a : α) : (pure a : Walk α).run ts c = some (.ok a, c) := rfl

theorem run_read : (read : Walk (List Token)).run ts c = some (.ok ts, c) := rfl

theorem run_get : (get : Walk Cursor).run ts c = some (.ok c, c) := rfl

theorem run_set : (set c' : Walk PUnit).run ts c = some (.ok ⟨⟩, c') := rfl

theorem run_bind (x : Walk α) (f : α → Walk β) : (x >>= f).run ts c =
    (x.run ts c).bind fun p => match p.1 with
      | .ok a => (f a).run ts p.2
      | .error stop => some (.error stop, p.2) := by
  show Option.bind _ _ = Option.bind _ _
  congr 1
  funext p
  obtain ⟨a | a, d⟩ := p <;> rfl

theorem run_bind_of_ok {x : Walk α} {f : α → Walk β} {a : α} (h : x.run ts c = some (.ok a, c')) :
    (x >>= f).run ts c = (f a).run ts c' := by
  rw [run_bind, h]
  rfl

theorem run_bind_of_error {x : Walk α} {f : α → Walk β} {stop : Stop}
    (h : x.run ts c = some (.error stop, c')) : (x >>= f).run ts c = some (.error stop, c') := by
  rw [run_bind, h]
  rfl

end Walk

/-! ### Places before the end -/

/-- The first end of the text among the tokens has the number `e`. -/
structure FirstEnd (ts : List Token) (e : Nat) : Prop where
  lt_length : e < ts.length
  kind_eq : ∀ t, ts[e]? = some t → t.kind = .eof
  kind_ne : ∀ i t, i < e → ts[i]? = some t → t.kind ≠ .eof

/-- The account of `n` calls that went on by one token each. -/
def oneByOne (n : Nat) : List (Nat × Nat) := (List.range n).map fun i => (i, i + 1)

theorem oneByOne_succ (n : Nat) : oneByOne (n + 1) = oneByOne n ++ [(n, n + 1)] := by
  simp [oneByOne, List.range_succ]

@[simp] theorem length_oneByOne (n : Nat) : (oneByOne n).length = n := by simp [oneByOne]

/-- The cursor went on by one token at a time up to a place that is not behind `e`, and
a token was passed in every round. -/
structure Tidy (e : Nat) (c : Cursor) : Prop where
  current_le : c.current ≤ e
  previous_eq : c.previous = if c.current = 0 then none else some (c.current - 1)
  moves_eq : c.moves = oneByOne c.current
  before_lt_after : ∀ m ∈ c.marks, m.before < m.after

/-- The cursor one token further. -/
def Cursor.next (c : Cursor) : Cursor :=
  { c with
    current := c.current + 1
    previous := some c.current
    moves := c.moves ++ [(c.current, c.current + 1)] }

/-- The cursor with one more round in its account. -/
def Cursor.marked (c : Cursor) (m : Mark) : Cursor := { c with marks := c.marks ++ [m] }

@[simp] theorem Cursor.current_next (c : Cursor) : c.next.current = c.current + 1 := rfl

theorem tidy_start (e : Nat) : Tidy e .start :=
  ⟨Nat.zero_le e, rfl, rfl, by simp [Cursor.start]⟩

theorem Tidy.length_moves (h : Tidy e c) : c.moves.length = c.current := by
  rw [h.moves_eq, length_oneByOne]

theorem Tidy.consumed_eq (h : Tidy e c) : c.consumed = c.current := by
  unfold Cursor.consumed
  rw [h.previous_eq]
  by_cases hzero : c.current = 0
  · rw [if_pos hzero, hzero]
  · rw [if_neg hzero]
    show c.current - 1 + 1 = c.current
    omega

theorem Tidy.next (h : Tidy e c) (hlt : c.current < e) : Tidy e c.next := by
  refine ⟨hlt, rfl, ?_, h.before_lt_after⟩
  rw [Cursor.current_next, oneByOne_succ, ← h.moves_eq]
  rfl

theorem Tidy.marked (h : Tidy e c) {m : Mark} (hm : m.before < m.after) : Tidy e (c.marked m) := by
  refine ⟨h.current_le, h.previous_eq, h.moves_eq, ?_⟩
  intro n hn
  rcases List.mem_append.mp hn with hn | hn
  · exact h.before_lt_after n hn
  · obtain rfl := List.mem_singleton.mp hn
    exact hm

/-! ### What the cursor does there -/

theorem run_tokenAt {i : Nat} (h : ts[i]? = some t) :
    (tokenAt i).run ts c = some (.ok t, c) := by
  unfold tokenAt
  rw [Walk.run_bind_of_ok Walk.run_read, h]
  rfl

theorem run_calls : calls.run ts c = some (.ok c.moves.length, c) := rfl

theorem run_mark (round : Round) (before : Nat) : (mark round before).run ts c =
    some (.ok (), c.marked ⟨round, before, c.moves.length⟩) := rfl

section
variable (he : FirstEnd ts e) (hc : Tidy e c)
include he hc

/-- There is a token at the cursor. -/
theorem exists_token : ∃ t, ts[c.current]? = some t :=
  ⟨_, List.getElem?_eq_getElem (Nat.lt_of_le_of_lt hc.current_le he.lt_length)⟩

theorem min_current : min c.current (ts.length - 1) = c.current := by
  have hle := hc.current_le
  have hlt := he.lt_length
  omega

theorem run_peek (ht : ts[c.current]? = some t) : peek.run ts c = some (.ok t, c) := by
  unfold peek
  rw [Walk.run_bind_of_ok Walk.run_read, Walk.run_bind_of_ok Walk.run_get, min_current he hc]
  exact run_tokenAt ht

theorem run_check (ht : ts[c.current]? = some t) (ks : List Kind) :
    (check ks).run ts c = some (.ok (ks.contains t.kind), c) := by
  unfold check
  rw [Walk.run_bind_of_ok (run_peek he hc ht)]
  rfl

/-- **Before the end a call of `advance` goes on by one token.** -/
theorem run_advance (ht : ts[c.current]? = some t) (hlt : c.current < e) :
    advance.run ts c = some (.ok t, c.next) := by
  have hlast : c.current < ts.length - 1 := by
    have := he.lt_length
    omega
  unfold advance
  rw [Walk.run_bind_of_ok Walk.run_read, Walk.run_bind_of_ok Walk.run_get]
  simp only [min_current he hc, if_pos hlast]
  rw [Walk.run_bind_of_ok Walk.run_set]
  exact run_tokenAt ht

/-- At the end a call of `advance` leaves the text if more tokens follow, and stays
otherwise. -/
theorem run_advance_end (ht : ts[c.current]? = some t) (heq : c.current = e) :
    ∃ c', advance.run ts c = some (.ok t, c') ∧
      c'.moves = oneByOne e ++ [(e, if e + 1 < ts.length then e + 1 else e)] ∧
      c'.marks = c.marks := by
  have hlt := he.lt_length
  have hnext : (if c.current < ts.length - 1 then c.current + 1 else c.current) =
      if e + 1 < ts.length then e + 1 else e := by
    rw [heq]
    by_cases h : e + 1 < ts.length
    · rw [if_pos h, if_pos (by omega)]
    · rw [if_neg h, if_neg (by omega)]
  unfold advance
  rw [Walk.run_bind_of_ok Walk.run_read, Walk.run_bind_of_ok Walk.run_get]
  simp only [min_current he hc, hnext]
  rw [Walk.run_bind_of_ok Walk.run_set]
  refine ⟨_, run_tokenAt ht, ?_, rfl⟩
  show c.moves ++ [(c.current, _)] = _
  rw [hc.moves_eq, heq]

/-- The last visible token is looked for among those before the cursor. -/
theorem run_lastVisible : lastVisible.run ts c =
    some (.ok ((ts.take c.current).reverse.find? Token.isVisible), c) := by
  have hle : c.current ≤ ts.length := Nat.le_of_lt (Nat.lt_of_le_of_lt hc.current_le he.lt_length)
  have hfind : (ts.take c.current).reverse.find? (fun t => t.kind != .newline) =
      (ts.take c.current).reverse.find? Token.isVisible := by
    apply List.find?_congr
    intro t ht
    obtain ⟨i, hi, hget⟩ := List.mem_take_iff_getElem.mp (List.mem_reverse.mp ht)
    have hne : t.kind ≠ .eof := by
      have hcur := hc.current_le
      exact he.kind_ne i t (by omega) (by rw [← hget]; exact List.getElem?_eq_getElem (by omega))
    simp [Token.isVisible, hne]
  unfold lastVisible
  rw [Walk.run_bind_of_ok Walk.run_read, Walk.run_bind_of_ok Walk.run_get]
  rw [hc.consumed_eq, if_pos hle, hfind]
  rfl

/-- A diagnostic points where one about the same token points. -/
theorem run_refuse (ht : ts[c.current]? = some t) (message : String) :
    (refuse message : Walk α).run ts c =
      some (.error (.fault (Reading.fault (ts.take c.current).reverse t
        (.unexpectedToken message))), c) := by
  unfold refuse
  rw [Walk.run_bind_of_ok (run_peek he hc ht)]
  unfold Reading.fault Reading.pointAt
  by_cases h : t.kind = .newline ∨ t.kind = .eof
  · have hnot : ¬ t.isVisible = true := by
      rcases h with h | h <;> simp [Token.isVisible, h]
    rw [if_pos h, if_neg hnot, Walk.run_bind_of_ok (run_lastVisible he hc)]
    rfl
  · have hvisible : t.isVisible = true := by
      simp only [not_or] at h
      simp [Token.isVisible, h]
    rw [if_neg h, if_pos hvisible]
    rfl

end

end Descent
end AssignLang
