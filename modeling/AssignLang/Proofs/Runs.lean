/-
# Runs

A list that starts with elements that pass a test and goes on with one that does
not splits in one way: what is read while the test holds is the first part.

Key theorems: `takeWhile_append_eq`, `append_inj_of_forall`.
-/
namespace AssignLang

variable {α : Type} {p : α → Bool} {a b u v : List α}

theorem takeWhile_eq_nil (hu : ∀ t ∈ u.head?, p t = false) : u.takeWhile p = [] := by
  cases u with
  | nil => rfl
  | cons t u => simp [hu t rfl]

/-- A run ends where the test stops to hold. -/
theorem takeWhile_append_eq (ha : ∀ t ∈ a, p t = true) (hu : ∀ t ∈ u.head?, p t = false) :
    (a ++ u).takeWhile p = a := by
  rw [List.takeWhile_append_of_pos ha, takeWhile_eq_nil hu, List.append_nil]

theorem dropWhile_append_eq (ha : ∀ t ∈ a, p t = true) (hu : ∀ t ∈ u.head?, p t = false) :
    (a ++ u).dropWhile p = u := by
  have hsplit := List.takeWhile_append_dropWhile (p := p) (l := a ++ u)
  rw [takeWhile_append_eq ha hu] at hsplit
  exact List.append_cancel_left hsplit

/-- Two splits into a run and what stops it are the same. -/
theorem append_inj_of_forall (ha : ∀ t ∈ a, p t = true) (hb : ∀ t ∈ b, p t = true)
    (hu : ∀ t ∈ u.head?, p t = false) (hv : ∀ t ∈ v.head?, p t = false) (h : a ++ u = b ++ v) :
    a = b ∧ u = v := by
  have hrun : a = b := by rw [← takeWhile_append_eq ha hu, h, takeWhile_append_eq hb hv]
  subst hrun
  exact ⟨rfl, List.append_cancel_left h⟩

theorem length_le_takeWhile (ha : ∀ t ∈ a, p t = true) (h : a <+: u) :
    a.length ≤ (u.takeWhile p).length := by
  obtain ⟨v, rfl⟩ := h
  rw [List.takeWhile_append_of_pos ha, List.length_append]
  omega

theorem of_mem_takeWhile {t : α} (h : t ∈ u.takeWhile p) : p t = true :=
  List.all_eq_true.mp List.all_takeWhile t h

theorem getElem?_eq_drop {m i : Nat} (h : m ≤ i) : u[i]? = (u.drop m)[i - m]? := by
  rw [List.getElem?_drop]
  congr 1
  omega

/-- What is left after the run that starts after `n` elements. -/
theorem drop_add_length_takeWhile (p : α → Bool) (u : List α) (n : Nat) :
    u.drop (n + ((u.drop n).takeWhile p).length) = (u.drop n).dropWhile p := by
  have hsplit := List.takeWhile_append_dropWhile (p := p) (l := u.drop n)
  have hrest := congrArg (List.drop ((u.drop n).takeWhile p).length) hsplit
  rwa [List.drop_left, List.drop_drop, eq_comm] at hrest

/-- The test does not hold where it stopped. -/
theorem head?_dropWhile (p : α → Bool) (u : List α) : ∀ t ∈ (u.dropWhile p).head?, p t = false := by
  intro t ht
  have hnot := List.head?_dropWhile_not p u
  rw [Option.mem_def.mp ht] at hnot
  simpa using hnot

end AssignLang
