/-
# Scopes

A scope binds names to values. It is a list of bindings in strictly increasing
order of the names, by their code points, so a name is bound at most once and
two scopes that bind alike are the same list.

Key definitions: `Scope`, `Scope.lookup`, `Scope.declare`.
Key theorems: `Scope.lookup_declare`, `Scope.ext_lookup`.
-/
import AssignLang.Value

namespace AssignLang

/-- A name with its value. -/
abbrev Binding := String × Value

/-- The names of the bindings increase strictly. -/
def Increasing (bs : List Binding) : Prop := bs.Pairwise fun a b => a.1 < b.1

/-- Names bound to values. -/
structure Scope where
  /-- The bindings in the order of their names. -/
  bindings : List Binding
  increasing : Increasing bindings

namespace Scope

/-- The bindings with `name` bound to `v`, in the place of an older binding of
it. -/
def insert (name : String) (v : Value) : List Binding → List Binding
  | [] => [(name, v)]
  | b :: bs =>
    if name < b.1 then (name, v) :: b :: bs
    else if b.1 < name then b :: insert name v bs
    else (name, v) :: bs

theorem fst_mem_insert {name : String} {v : Value} {x : String} :
    ∀ {bs : List Binding}, (∃ b ∈ insert name v bs, b.1 = x) → x = name ∨ ∃ b ∈ bs, b.1 = x
  | [], h => by simpa [insert, eq_comm] using h
  | b :: bs, ⟨c, hc, hx⟩ => by
    unfold insert at hc
    split at hc
    · rcases List.mem_cons.mp hc with rfl | h
      · exact .inl hx.symm
      · exact .inr ⟨c, h, hx⟩
    · split at hc
      · rcases List.mem_cons.mp hc with rfl | h
        · exact .inr ⟨c, List.mem_cons_self, hx⟩
        · rcases fst_mem_insert ⟨c, h, hx⟩ with h | ⟨d, hd, hdx⟩
          · exact .inl h
          · exact .inr ⟨d, List.mem_cons_of_mem _ hd, hdx⟩
      · rcases List.mem_cons.mp hc with rfl | h
        · exact .inl hx.symm
        · exact .inr ⟨c, List.mem_cons_of_mem _ h, hx⟩

theorem eq_of_not_lt {a b : String} (h : ¬ a < b) (h' : ¬ b < a) : a = b :=
  String.le_antisymm (String.not_lt.mp h') (String.not_lt.mp h)

theorem increasing_insert (name : String) (v : Value) :
    ∀ {bs : List Binding}, Increasing bs → Increasing (insert name v bs)
  | [], _ => List.pairwise_singleton ..
  | b :: bs, h => by
    obtain ⟨hb, hbs⟩ := List.pairwise_cons.mp h
    unfold insert
    split
    · next hlt =>
      refine List.pairwise_cons.mpr ⟨fun c hc => ?_, h⟩
      rcases List.mem_cons.mp hc with rfl | hc
      · exact hlt
      · exact String.lt_trans hlt (hb c hc)
    · next hnlt =>
      split
      · next hlt =>
        refine List.pairwise_cons.mpr ⟨fun c hc => ?_, increasing_insert name v hbs⟩
        rcases fst_mem_insert ⟨c, hc, rfl⟩ with h | ⟨d, hd, hdc⟩
        · exact h ▸ hlt
        · exact hdc ▸ hb d hd
      · next hngt =>
        have : b.1 = name := eq_of_not_lt hngt hnlt
        exact List.pairwise_cons.mpr ⟨fun c hc => this ▸ hb c hc, hbs⟩

/-- The scope that binds nothing. -/
def empty : Scope := ⟨[], List.Pairwise.nil⟩

/-- The scope with `name` bound to `v`; an older binding of the name is gone. -/
def declare (s : Scope) (name : String) (v : Value) : Scope :=
  ⟨insert name v s.bindings, increasing_insert name v s.increasing⟩

/-- The value a name is bound to. -/
def lookup (s : Scope) (name : String) : Option Value := s.bindings.lookup name

/-- Whether a name is bound. -/
def contains (s : Scope) (name : String) : Bool := (s.lookup name).isSome

/-- How many names are bound. -/
def size (s : Scope) : Nat := s.bindings.length

/-- Whether no name is bound. -/
def isEmpty (s : Scope) : Bool := s.bindings.isEmpty

/-- Two scopes are equal when they bind the same names to equal values. -/
instance : BEq Scope := ⟨fun s t => s.bindings == t.bindings⟩

theorem lookup_insert_self (name : String) (v : Value) :
    ∀ bs : List Binding, (insert name v bs).lookup name = some v
  | [] => by simp [insert]
  | b :: bs => by
    unfold insert
    split
    · simp
    · split
      · next hlt =>
        have : (name == b.1) = false := by
          simpa using fun h : name = b.1 => String.lt_irrefl b.1 (h ▸ hlt)
        obtain ⟨n, w⟩ := b
        simpa [List.lookup_cons, this] using lookup_insert_self name v bs
      · simp

theorem lookup_insert_of_ne {name other : String} (v : Value) (h : other ≠ name) :
    ∀ bs : List Binding, (insert name v bs).lookup other = bs.lookup other
  | [] => by simp [insert, List.lookup_cons, beq_false_of_ne h]
  | (n, w) :: bs => by
    have hb := beq_false_of_ne h
    unfold insert
    split
    · simp [List.lookup_cons, hb]
    · split
      · simp [List.lookup_cons, lookup_insert_of_ne v h bs]
      · next h1 h2 =>
        have : n = name := eq_of_not_lt h2 h1
        simp [List.lookup_cons, this, hb]

/-- A declared name is bound to what it was declared to be, and the other names
stay as they were. -/
theorem lookup_declare (s : Scope) (name other : String) (v : Value) :
    (s.declare name v).lookup other = if other = name then some v else s.lookup other := by
  split
  · next h => exact h ▸ lookup_insert_self name v s.bindings
  · next h => exact lookup_insert_of_ne v h s.bindings

@[simp] theorem lookup_declare_self (s : Scope) (name : String) (v : Value) :
    (s.declare name v).lookup name = some v := by
  simp [lookup_declare]

theorem lookup_declare_of_ne (s : Scope) {name other : String} (v : Value) (h : other ≠ name) :
    (s.declare name v).lookup other = s.lookup other := by
  simp [lookup_declare, h]

@[simp] theorem lookup_empty (name : String) : empty.lookup name = none := rfl

/-! ### Scopes that bind alike -/

theorem lookup_eq_none_of_lt {name : String} :
    ∀ {bs : List Binding}, (∀ b ∈ bs, name < b.1) → bs.lookup name = none
  | [], _ => rfl
  | (n, w) :: bs, h => by
    have hn : name ≠ n := fun e => String.lt_irrefl n (e ▸ h (n, w) List.mem_cons_self)
    rw [List.lookup_cons, beq_false_of_ne hn]
    exact lookup_eq_none_of_lt fun b hb => h b (List.mem_cons_of_mem _ hb)

/-- Lists of bindings that increase and bind alike are the same list. -/
theorem eq_of_lookup_eq : ∀ {bs cs : List Binding}, Increasing bs → Increasing cs →
    (∀ name, bs.lookup name = cs.lookup name) → bs = cs
  | [], [], _, _, _ => rfl
  | [], (n, w) :: cs, _, _, h => by
    have := h n
    simp at this
  | (n, w) :: bs, [], _, _, h => by
    have := h n
    simp at this
  | (n, w) :: bs, (m, x) :: cs, hb, hc, h => by
    obtain ⟨hb1, hb2⟩ := List.pairwise_cons.mp hb
    obtain ⟨hc1, hc2⟩ := List.pairwise_cons.mp hc
    have hnm : n = m := by
      refine eq_of_not_lt (fun hlt => ?_) (fun hlt => ?_)
      · have hn := h n
        have hne : n ≠ m := fun e => String.lt_irrefl m (e ▸ hlt)
        rw [List.lookup_cons_self, List.lookup_cons, beq_false_of_ne hne,
          lookup_eq_none_of_lt fun b hb => String.lt_trans hlt (hc1 b hb)] at hn
        cases hn
      · have hm := h m
        have hne : m ≠ n := fun e => String.lt_irrefl n (e ▸ hlt)
        rw [List.lookup_cons_self, List.lookup_cons, beq_false_of_ne hne,
          lookup_eq_none_of_lt fun b hb => String.lt_trans hlt (hb1 b hb)] at hm
        cases hm
    subst hnm
    have hwx : w = x := by simpa using h n
    subst hwx
    refine congrArg _ (eq_of_lookup_eq hb2 hc2 fun name => ?_)
    by_cases hname : name = n
    · subst hname
      rw [lookup_eq_none_of_lt hb1, lookup_eq_none_of_lt hc1]
    · have := h name
      rwa [List.lookup_cons, List.lookup_cons, beq_false_of_ne hname] at this

/-- Scopes that bind alike are the same scope. -/
theorem ext_lookup {s t : Scope} (h : ∀ name, s.lookup name = t.lookup name) : s = t := by
  obtain ⟨bs, hb⟩ := s
  obtain ⟨cs, hc⟩ := t
  obtain rfl : bs = cs := eq_of_lookup_eq hb hc h
  rfl

end Scope

end AssignLang
