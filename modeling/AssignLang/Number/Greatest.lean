/-
# The last number that passes a test

For a test that no number passes after one that fails, `greatest` finds the
last number below a power of two that passes, one binary digit at a time.

Key definitions: `greatest`.
Key theorems: `greatest_lt`, `greatest_passes`, `le_greatest`.
-/
namespace AssignLang

/-- The last number from `low` on, and before `low + 2 ^ bits`, that passes the
test, if `low` does and no number passes after one that fails. -/
def greatestFrom (test : Nat → Bool) : Nat → Nat → Nat
  | 0, low => low
  | bits + 1, low =>
    if test (low + Nat.pow 2 bits) then greatestFrom test bits (low + Nat.pow 2 bits)
    else greatestFrom test bits low

/-- The last number below `2 ^ bits` that passes the test. -/
def greatest (test : Nat → Bool) (bits : Nat) : Nat := greatestFrom test bits 0

theorem le_greatestFrom (test : Nat → Bool) :
    ∀ bits low : Nat, low ≤ greatestFrom test bits low
  | 0, low => Nat.le_refl low
  | bits + 1, low => by
    unfold greatestFrom
    split
    · exact Nat.le_trans (Nat.le_add_right _ _) (le_greatestFrom test bits _)
    · exact le_greatestFrom test bits low

theorem greatestFrom_lt (test : Nat → Bool) :
    ∀ bits low : Nat, greatestFrom test bits low < low + Nat.pow 2 bits
  | 0, low => by simp [greatestFrom]
  | bits + 1, low => by
    have h : Nat.pow 2 (bits + 1) = Nat.pow 2 bits * 2 := rfl
    unfold greatestFrom
    split
    · have := greatestFrom_lt test bits (low + Nat.pow 2 bits)
      omega
    · have := greatestFrom_lt test bits low
      omega

theorem greatestFrom_passes (test : Nat → Bool) :
    ∀ bits low : Nat, test low = true → test (greatestFrom test bits low) = true
  | 0, _, h => h
  | bits + 1, low, h => by
    unfold greatestFrom
    split
    · next hp => exact greatestFrom_passes test bits _ hp
    · exact greatestFrom_passes test bits low h

theorem lt_of_greatestFrom_lt (test : Nat → Bool)
    (anti : ∀ m n : Nat, m ≤ n → test n = true → test m = true) :
    ∀ bits low n : Nat, greatestFrom test bits low < n → n < low + Nat.pow 2 bits → test n = false
  | 0, low, n, hlt, hn => by
    have h : Nat.pow 2 0 = 1 := rfl
    unfold greatestFrom at hlt
    omega
  | bits + 1, low, n, hlt, hn => by
    have h : Nat.pow 2 (bits + 1) = Nat.pow 2 bits * 2 := rfl
    unfold greatestFrom at hlt
    split at hlt
    · exact lt_of_greatestFrom_lt test anti bits _ n hlt (by omega)
    · next hf =>
      by_cases hb : n < low + Nat.pow 2 bits
      · exact lt_of_greatestFrom_lt test anti bits low n hlt hb
      · cases ht : test n
        · rfl
        · exact absurd (anti (low + Nat.pow 2 bits) n (by omega) ht) hf

theorem greatest_lt (test : Nat → Bool) (bits : Nat) : greatest test bits < Nat.pow 2 bits := by
  simpa [greatest] using greatestFrom_lt test bits 0

/-- The number found passes, if any number does. -/
theorem greatest_passes (test : Nat → Bool) (bits : Nat) (h : test 0 = true) :
    test (greatest test bits) = true :=
  greatestFrom_passes test bits 0 h

/-- Every number in reach that passes is at most the number found. -/
theorem le_greatest (test : Nat → Bool) (bits : Nat)
    (anti : ∀ m n : Nat, m ≤ n → test n = true → test m = true) {n : Nat}
    (hn : n < Nat.pow 2 bits) (h : test n = true) : n ≤ greatest test bits := by
  refine Nat.le_of_not_lt fun hlt => ?_
  have := lt_of_greatestFrom_lt test anti bits 0 n hlt (by simpa using hn)
  rw [h] at this
  cases this

end AssignLang
