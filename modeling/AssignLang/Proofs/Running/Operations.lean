/-
# What an operation can give

For every operation of a run the ways in which it has a value, and the ways in
which it has a diagnostic. An operation looks at its operands from the left to the
right, and at the divisor after both of them are known to be numbers. What is proved
about evaluation is proved from these lists, and the operations are not looked into
again.

Key theorems: `Value.negate_eq_ok_iff`, `Value.negate_eq_error_iff`,
`BinaryOp.apply_eq_ok_iff`, `BinaryOp.apply_eq_error_iff`,
`Scope.read_eq_ok_iff`, `Scope.read_eq_error_iff`.
-/
import AssignLang.Program.Run

namespace AssignLang

theorem bind_eq_ok_iff {ε α β : Type} {x : Except ε α} {f : α → Except ε β} {b : β} :
    (x >>= f) = .ok b ↔ ∃ a, x = .ok a ∧ f a = .ok b := by
  cases x with
  | ok a => exact ⟨fun h => ⟨a, rfl, h⟩, fun ⟨_, ha, h⟩ => Except.ok.inj ha ▸ h⟩
  | error e => exact ⟨fun h => (by cases h), fun ⟨_, ha, _⟩ => (by cases ha)⟩

theorem bind_eq_error_iff {ε α β : Type} {x : Except ε α} {f : α → Except ε β} {e : ε} :
    (x >>= f) = .error e ↔ x = .error e ∨ ∃ a, x = .ok a ∧ f a = .error e := by
  cases x with
  | ok a =>
    refine ⟨fun h => .inr ⟨a, rfl, h⟩, ?_⟩
    rintro (h | ⟨_, ha, h⟩)
    · cases h
    · exact Except.ok.inj ha ▸ h
  | error e' =>
    refine ⟨fun h => .inl (congrArg Except.error (Except.error.inj h)), ?_⟩
    rintro (h | ⟨_, ha, -⟩)
    · exact congrArg Except.error (Except.error.inj h)
    · cases ha

/-- The diagnostic about an operand of the token that is null. -/
def Token.notANumber (t : Token) : Diagnostic := t.fault (.notANumber "null")

/-- The diagnostic about a divisor or an exponent that is zero. -/
def Token.byZero (t : Token) (op : BinaryOp) : Diagnostic := t.fault (.divisionByZero op)

namespace Value

theorem asNumber_eq_ok_iff {v : Value} {t : Token} {x : Float} :
    v.asNumber t = .ok x ↔ v = .number x := by
  cases v with
  | number y => simp [asNumber]
  | null => simp [asNumber]

theorem asNumber_eq_error_iff {v : Value} {t : Token} {d : Diagnostic} :
    v.asNumber t = .error d ↔ v = .null ∧ d = t.notANumber := by
  cases v with
  | number y => simp [asNumber]
  | null => simp [asNumber, Token.notANumber, sort, eq_comm]

theorem negate_eq_ok_iff {v w : Value} {t : Token} :
    v.negate t = .ok w ↔ ∃ x, v = .number x ∧ w = .number (-x) := by
  simp only [negate, bind_eq_ok_iff, asNumber_eq_ok_iff, Except.ok.injEq, eq_comm (a := w)]

theorem negate_eq_error_iff {v : Value} {t : Token} {d : Diagnostic} :
    v.negate t = .error d ↔ v = .null ∧ d = t.notANumber := by
  simp only [negate, bind_eq_error_iff, asNumber_eq_error_iff, reduceCtorEq, and_false,
    exists_false, or_false]

end Value

namespace BinaryOp

variable {op : BinaryOp} {t : Token} {left right : Value}

theorem apply_eq_ok_iff {v : Value} : op.apply t left right = .ok v ↔
    ∃ x y, left = .number x ∧ right = .number y ∧ (op.refusesZero && y == 0) = false ∧
      v = .number (op.compute x y) := by
  simp only [apply, bind_eq_ok_iff, Value.asNumber_eq_ok_iff]
  constructor
  · rintro ⟨x, hx, y, hy, h⟩
    split at h
    · cases h
    · next hzero => exact ⟨x, y, hx, hy, Bool.eq_false_iff.mpr hzero, (Except.ok.inj h).symm⟩
  · rintro ⟨x, y, hx, hy, hzero, rfl⟩
    exact ⟨x, hx, y, hy, by rw [hzero]; rfl⟩

theorem apply_eq_error_iff {d : Diagnostic} : op.apply t left right = .error d ↔
    (left = .null ∧ d = t.notANumber) ∨
      (∃ x, left = .number x ∧ right = .null ∧ d = t.notANumber) ∨
        ∃ x y, left = .number x ∧ right = .number y ∧ (op.refusesZero && y == 0) = true ∧
          d = t.byZero op := by
  simp only [apply, bind_eq_error_iff, Value.asNumber_eq_ok_iff, Value.asNumber_eq_error_iff]
  constructor
  · rintro (h | ⟨x, hx, h | ⟨y, hy, h⟩⟩)
    · exact .inl h
    · exact .inr (.inl ⟨x, hx, h⟩)
    · split at h
      · next hzero => exact .inr (.inr ⟨x, y, hx, hy, hzero, (Except.error.inj h).symm⟩)
      · cases h
  · rintro (h | ⟨x, hx, h⟩ | ⟨x, y, hx, hy, hzero, rfl⟩)
    · exact .inl h
    · exact .inr ⟨x, hx, .inl h⟩
    · exact .inr ⟨x, hx, .inr ⟨y, hy, by rw [hzero]; rfl⟩⟩

end BinaryOp

namespace Scope

theorem read_eq_ok_iff {s : Scope} {t : Token} {v : Value} :
    s.read t = .ok v ↔ s.lookup t.text = some v := by
  unfold read
  cases s.lookup t.text <;> simp

theorem read_eq_error_iff {s : Scope} {t : Token} {d : Diagnostic} :
    s.read t = .error d ↔ s.lookup t.text = none ∧ d = t.fault (.undefinedVariable t.text) := by
  unfold read
  cases s.lookup t.text with
  | some v => simp
  | none => simp [eq_comm]

end Scope
end AssignLang
