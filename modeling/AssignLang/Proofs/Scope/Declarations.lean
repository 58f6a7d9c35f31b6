/-
# Scopes as maps

Of the declarations that were made in a scope only the last one of each name is left:
it is what the name is bound to, whatever was declared before it or of other names
(`Scope.lookup_ofDeclarations_eq_some_iff`). The bindings list every name once, in the
order of the bytes of the names, which is also that of their code points, so scopes
that bind alike list alike. Two scopes are equal, as `==` has it, when they bind the
same names to equal values; doubles are equal as numbers, so that NaN is equal to
nothing and the two zeros are equal.

Key definitions: `LastDeclared`, `Scope.ofDeclarations`, `Scope.Records`,
`Value.EqualTo`.
Key theorems: `Scope.lookup_declareAll`, `Scope.mem_bindings_iff`,
`Scope.mergeSort_eq_bindings`, `Scope.records_ofDeclarations`, `Scope.beq_iff`,
`Scope.declarations_listed`.
-/
import Mathlib
import AssignLang.Proofs.Text.ByteOrder
import AssignLang.Scope

namespace AssignLang

/-! ### Declarations -/

/-- The last declaration of the name gave it the value `v`. -/
def LastDeclared (bs : List Binding) (name : String) (v : Value) : Prop :=
  ∃ before after, bs = before ++ (name, v) :: after ∧ ∀ b ∈ after, b.1 ≠ name

theorem lookup_reverse_eq_some_iff {bs : List Binding} {name : String} {v : Value} :
    bs.reverse.lookup name = some v ↔ LastDeclared bs name v := by
  rw [List.lookup_eq_some_iff]
  constructor
  · rintro ⟨after, before, hbs, hafter⟩
    refine ⟨before.reverse, after.reverse, ?_, fun b hb => ?_⟩
    · rw [← List.reverse_reverse bs, hbs]
      simp
    · have hne := hafter b (List.mem_reverse.mp hb)
      exact (bne_iff_ne.mp hne).symm
  · rintro ⟨before, after, rfl, hafter⟩
    refine ⟨after.reverse, before.reverse, by simp, fun b hb => ?_⟩
    exact bne_iff_ne.mpr (hafter b (List.mem_reverse.mp hb)).symm

theorem lookup_reverse_eq_none_iff {bs : List Binding} {name : String} :
    bs.reverse.lookup name = none ↔ name ∉ bs.map Prod.fst := by
  rw [List.lookup_eq_none_iff, List.mem_map]
  constructor
  · rintro h ⟨b, hb, rfl⟩
    exact bne_iff_ne.mp (h b (List.mem_reverse.mpr hb)) rfl
  · intro h b hb
    exact bne_iff_ne.mpr fun hname => h ⟨b, List.mem_reverse.mp hb, hname.symm⟩

namespace Scope

/-- The scope after some more declarations. -/
def declareAll (s : Scope) (bs : List Binding) : Scope :=
  bs.foldl (fun u b => u.declare b.1 b.2) s

/-- The scope that declarations leave, the first one made first. -/
def ofDeclarations (bs : List Binding) : Scope := empty.declareAll bs

/-- **What a name is bound to was declared last**, or was there before. -/
theorem lookup_declareAll (name : String) : ∀ (bs : List Binding) (s : Scope),
    (s.declareAll bs).lookup name = (bs.reverse.lookup name).or (s.lookup name)
  | [], _ => rfl
  | (x, v) :: bs, s => by
    have htail := lookup_declareAll name bs (s.declare x v)
    rw [lookup_declare] at htail
    rw [List.reverse_cons, List.lookup_append, Option.or_assoc]
    refine htail.trans ?_
    by_cases hname : name = x
    · simp [hname]
    · simp [hname, List.lookup_cons, beq_false_of_ne hname]

theorem lookup_ofDeclarations (bs : List Binding) (name : String) :
    (ofDeclarations bs).lookup name = bs.reverse.lookup name := by
  rw [ofDeclarations, lookup_declareAll, lookup_empty, Option.or_none]

theorem lookup_ofDeclarations_eq_some_iff {bs : List Binding} {name : String} {v : Value} :
    (ofDeclarations bs).lookup name = some v ↔ LastDeclared bs name v := by
  rw [lookup_ofDeclarations, lookup_reverse_eq_some_iff]

theorem lookup_ofDeclarations_eq_none_iff {bs : List Binding} {name : String} :
    (ofDeclarations bs).lookup name = none ↔ name ∉ bs.map Prod.fst := by
  rw [lookup_ofDeclarations, lookup_reverse_eq_none_iff]

/-! ### The bindings in their order -/

/-- Where no name stands twice, a name is bound to what stands with it. -/
theorem lookup_eq_some_iff_mem {name : String} {v : Value} : ∀ {bs : List Binding},
    (bs.map Prod.fst).Nodup → (bs.lookup name = some v ↔ (name, v) ∈ bs)
  | [], _ => by simp
  | (x, w) :: bs, h => by
    obtain ⟨hx, hbs⟩ := List.nodup_cons.mp h
    rw [List.lookup_cons, List.mem_cons]
    by_cases hname : name = x
    · subst hname
      have hmem : (name, v) ∉ bs := fun hb => hx (List.mem_map.mpr ⟨_, hb, rfl⟩)
      simp [hmem, eq_comm]
    · rw [beq_false_of_ne hname, lookup_eq_some_iff_mem hbs]
      simp [hname]

/-- The names that are bound, in their order. -/
def names (s : Scope) : List String := s.bindings.map Prod.fst

theorem pairwise_names (s : Scope) : s.names.Pairwise (· < ·) :=
  List.pairwise_map.mpr s.increasing

theorem nodup_names (s : Scope) : s.names.Nodup := s.pairwise_names.imp fun h => h.ne

/-- The bindings are what the names are bound to. -/
theorem mem_bindings_iff (s : Scope) {name : String} {v : Value} :
    (name, v) ∈ s.bindings ↔ s.lookup name = some v :=
  (lookup_eq_some_iff_mem s.nodup_names).symm

theorem mem_names_iff (s : Scope) {name : String} :
    name ∈ s.names ↔ ∃ v, s.lookup name = some v := by
  rw [names, List.mem_map]
  constructor
  · rintro ⟨⟨x, v⟩, hb, rfl⟩
    exact ⟨v, s.mem_bindings_iff.mp hb⟩
  · rintro ⟨v, hv⟩
    exact ⟨(name, v), s.mem_bindings_iff.mpr hv, rfl⟩

/-- The order of bindings by the bytes of their names. -/
def byBytes (a b : Binding) : Bool := decide (Text.bytes a.1 ≤ Text.bytes b.1)

theorem byBytes_iff {a b : Binding} : byBytes a b = true ↔ a.1 ≤ b.1 := by
  rw [byBytes, decide_eq_true_iff, ← List.not_lt, Text.bytes_lt_iff, not_lt]

/-- **In whatever order the bindings are found, they are sorted into the same list.** -/
theorem mergeSort_eq_bindings (s : Scope) {bs : List Binding} (h : bs.Perm s.bindings) :
    bs.mergeSort byBytes = s.bindings := by
  have hsorted : (bs.mergeSort byBytes).Pairwise fun a b => a.1 ≤ b.1 := by
    refine (List.pairwise_mergeSort ?_ ?_ bs).imp byBytes_iff.mp
    · intro a b c hab hbc
      exact byBytes_iff.mpr ((byBytes_iff.mp hab).trans (byBytes_iff.mp hbc))
    · intro a b
      rw [Bool.or_eq_true, byBytes_iff, byBytes_iff]
      exact le_total a.1 b.1
  have hperm := (List.mergeSort_perm bs byBytes).trans h
  refine hperm.eq_of_pairwise ?_ hsorted (s.increasing.imp fun hlt => hlt.le)
  -- Bindings that come neither before nor after each other have one name, so one value.
  rintro ⟨x, v⟩ ⟨y, w⟩ hx hy hxy hyx
  obtain rfl : x = y := le_antisymm hxy hyx
  rw [mem_bindings_iff] at hy
  rw [hperm.mem_iff, mem_bindings_iff, hy] at hx
  rw [Option.some.inj hx]

theorem length_names (s : Scope) : s.names.length = s.size := List.length_map Prod.fst

/-- Declarations leave as many names as they name. -/
theorem size_ofDeclarations (bs : List Binding) :
    (ofDeclarations bs).size = (bs.map Prod.fst).toFinset.card := by
  have hnames : (ofDeclarations bs).names.toFinset = (bs.map Prod.fst).toFinset := by
    ext name
    rw [List.mem_toFinset, List.mem_toFinset, mem_names_iff, ← Option.isSome_iff_exists,
      ← not_iff_not, ← lookup_ofDeclarations_eq_none_iff, Option.not_isSome_iff_eq_none]
  rw [← hnames, List.toFinset_card_of_nodup (nodup_names _), length_names]

/-- A scope is what is left of some declarations. -/
structure Records (bs : List Binding) (s : Scope) : Prop where
  lookup_eq_some_iff : ∀ name v, s.lookup name = some v ↔ LastDeclared bs name v
  lookup_eq_none_iff : ∀ name, s.lookup name = none ↔ name ∉ bs.map Prod.fst
  contains_iff : ∀ name, s.contains name = true ↔ ∃ v, s.lookup name = some v
  /-- As many names are bound as there are different ones among the declared. -/
  size_eq : s.size = (bs.map Prod.fst).toFinset.card
  size_eq_length : s.size = s.bindings.length
  isEmpty_iff : s.isEmpty = true ↔ s.size = 0
  /-- The bindings list every bound name with its value, -/
  mem_iff : ∀ name v, (name, v) ∈ s.bindings ↔ s.lookup name = some v
  /-- none of them twice, -/
  nodup : (s.bindings.map Prod.fst).Nodup
  /-- in the order of their bytes, -/
  bytes_increasing : s.bindings.Pairwise fun a b => Text.bytes a.1 < Text.bytes b.1
  /-- which is that of their code points. -/
  codes_increasing : s.bindings.Pairwise fun a b => Text.codes a.1 < Text.codes b.1
  /-- In whatever order they are found, sorting them by the bytes gives this list. -/
  mergeSort_eq : ∀ found : List Binding, found.Perm s.bindings →
    found.mergeSort byBytes = s.bindings

/-- **A scope records the last declaration of each name.** -/
theorem records_ofDeclarations (bs : List Binding) : Records bs (ofDeclarations bs) where
  lookup_eq_some_iff _ _ := lookup_ofDeclarations_eq_some_iff
  lookup_eq_none_iff _ := lookup_ofDeclarations_eq_none_iff
  contains_iff _ := Option.isSome_iff_exists
  size_eq := size_ofDeclarations bs
  size_eq_length := rfl
  isEmpty_iff := List.isEmpty_iff_length_eq_zero
  mem_iff _ _ := mem_bindings_iff _
  nodup := nodup_names _
  bytes_increasing := (ofDeclarations bs).increasing.imp fun h => Text.bytes_lt_iff.mpr h
  codes_increasing := (ofDeclarations bs).increasing.imp fun h => Text.codes_lt_iff.mpr h
  mergeSort_eq _ := mergeSort_eq_bindings _

end Scope

/-! ### Equal scopes -/

/-- Two values are equal: both are null, or both are numbers, none is NaN, and they are
the same or zeros. -/
def Value.EqualTo : Value → Value → Prop
  | number x, number y =>
    x.isNaN = false ∧ y.isNaN = false ∧ (x = y ∨ (x = 0 ∨ x = -0) ∧ (y = 0 ∨ y = -0))
  | null, null => True
  | _, _ => False

theorem Value.beq_iff_equalTo {v w : Value} : (v == w) = true ↔ v.EqualTo w := by
  cases v with
  | number x =>
    cases w with
    | number y =>
      have hbeq : (number x == number y) = (x == y) := rfl
      rw [hbeq, Float.beq_iff_ne_nan_and_eq, EqualTo, Float.isNaN_eq_decide_eq_nan,
        Float.isNaN_eq_decide_eq_nan, decide_eq_false_iff_not, decide_eq_false_iff_not]
      grind
    | null => exact ⟨fun h => absurd h Bool.false_ne_true, fun h => h.elim⟩
  | null =>
    cases w with
    | number y => exact ⟨fun h => absurd h Bool.false_ne_true, fun h => h.elim⟩
    | null => exact ⟨fun _ => trivial, fun _ => rfl⟩

theorem list_beq_iff_forall₂ {α : Type} [BEq α] : ∀ {xs ys : List α},
    (xs == ys) = true ↔ List.Forall₂ (fun x y => (x == y) = true) xs ys
  | [], [] => ⟨fun _ => .nil, fun _ => rfl⟩
  | [], _ :: _ => ⟨fun h => absurd h Bool.false_ne_true, fun h => by cases h⟩
  | _ :: _, [] => ⟨fun h => absurd h Bool.false_ne_true, fun h => by cases h⟩
  | x :: xs, y :: ys => by
    rw [List.cons_beq_cons, Bool.and_eq_true, list_beq_iff_forall₂, List.forall₂_cons]

theorem Binding.beq_iff {a b : Binding} : (a == b) = true ↔ a.1 = b.1 ∧ a.2.EqualTo b.2 := by
  have hbeq : (a == b) = (a.1 == b.1 && a.2 == b.2) := rfl
  rw [hbeq, Bool.and_eq_true, beq_iff_eq, Value.beq_iff_equalTo]

namespace Scope

theorem rel_lookup_of_forall₂ (name : String) {bs cs : List Binding}
    (h : List.Forall₂ (fun b c => b.1 = c.1 ∧ b.2.EqualTo c.2) bs cs) :
    Option.Rel Value.EqualTo (bs.lookup name) (cs.lookup name) := by
  induction h with
  | nil => exact .none
  | @cons b c bs cs hbc _ ih =>
    obtain ⟨x, v⟩ := b
    obtain ⟨y, w⟩ := c
    obtain ⟨rfl, hvalue⟩ := hbc
    by_cases hname : name = x
    · subst hname
      rw [List.lookup_cons_self, List.lookup_cons_self]
      exact .some hvalue
    · rw [List.lookup_cons, List.lookup_cons, beq_false_of_ne hname]
      exact ih

theorem isSome_eq_of_rel {α β : Type} {r : α → β → Prop} {a : Option α} {b : Option β}
    (h : Option.Rel r a b) : a.isSome = b.isSome := by
  cases h <;> rfl

/-- Scopes that bind the same names list the same names. -/
theorem names_eq_of_mem_iff {s t : Scope} (h : ∀ name, name ∈ s.names ↔ name ∈ t.names) :
    s.names = t.names := by
  have hperm := (List.perm_ext_iff_of_nodup s.nodup_names t.nodup_names).mpr h
  refine hperm.eq_of_pairwise ?_ s.pairwise_names t.pairwise_names
  intro a b _ _ hab hba
  exact absurd hba (lt_asymm hab)

/-- **Scopes are equal exactly when they bind the same names to equal values.** -/
theorem beq_iff {s t : Scope} : (s == t) = true ↔
    ∀ name, Option.Rel Value.EqualTo (s.lookup name) (t.lookup name) := by
  have hbeq : (s == t) = (s.bindings == t.bindings) := rfl
  rw [hbeq, list_beq_iff_forall₂]
  simp only [Binding.beq_iff]
  refine ⟨fun h name => rel_lookup_of_forall₂ name h, fun h => ?_⟩
  have hnames : s.names = t.names := by
    apply names_eq_of_mem_iff
    intro name
    rw [mem_names_iff, mem_names_iff, ← Option.isSome_iff_exists, ← Option.isSome_iff_exists,
      isSome_eq_of_rel (h name)]
  have hsame : List.Forall₂ (fun x y => x = y) s.names t.names := by
    rw [List.forall₂_eq_eq_eq, hnames]
  rw [names, names, List.forall₂_map_left_iff, List.forall₂_map_right_iff] at hsame
  obtain ⟨hlength, hfst⟩ := List.forall₂_iff_zip.mp hsame
  refine List.forall₂_iff_zip.mpr ⟨hlength, fun {b c} hbc => ⟨hfst hbc, ?_⟩⟩
  obtain ⟨hb, hc⟩ := List.of_mem_zip hbc
  have hname := h b.1
  rw [s.mem_bindings_iff.mp hb, hfst hbc, t.mem_bindings_iff.mp hc] at hname
  cases hname with
  | some hvalue => exact hvalue

/-! ### Histories -/

/-- Histories that end alike for every name leave the same scope. -/
theorem ofDeclarations_eq {bs cs : List Binding}
    (h : ∀ name v, LastDeclared bs name v ↔ LastDeclared cs name v) :
    ofDeclarations bs = ofDeclarations cs := by
  apply ext_lookup
  intro name
  ext v
  rw [lookup_ofDeclarations_eq_some_iff, lookup_ofDeclarations_eq_some_iff, h]

/-- **A scope is a map from names to values, listed in one order.** It holds the last
declaration of each name, and lists the names once each in the order of their bytes,
which is the order of their code points; histories with the same last declarations list
the same; and scopes are equal when they bind the same names to equal values. -/
theorem declarations_listed :
    (∀ bs, Records bs (ofDeclarations bs)) ∧
    (∀ a b : String, Text.bytes a < Text.bytes b ↔ Text.codes a < Text.codes b) ∧
    (∀ bs cs, (∀ name v, LastDeclared bs name v ↔ LastDeclared cs name v) →
      (ofDeclarations bs).bindings = (ofDeclarations cs).bindings) ∧
    ∀ s t : Scope, (s == t) = true ↔
      ∀ name, Option.Rel Value.EqualTo (s.lookup name) (t.lookup name) := by
  refine ⟨records_ofDeclarations, fun a b => ?_, fun bs cs h => ?_, fun s t => beq_iff⟩
  · rw [Text.bytes_lt_iff, Text.codes_lt_iff]
  · rw [ofDeclarations_eq h]

/-- A name that is declared twice, and declarations in another order. -/
theorem declarations_listed_twice :
    let bs : List Binding := [("b", .number 1), ("é", .null), ("b", .number 0)]
    let cs : List Binding := [("b", .number 0), ("é", .null)]
    (∀ name v, LastDeclared bs name v ↔ LastDeclared cs name v) ∧
      (ofDeclarations bs).bindings = (ofDeclarations cs).bindings := by
  intro bs cs
  have hlast : ∀ name v, LastDeclared bs name v ↔ LastDeclared cs name v := by
    intro name v
    have hlookup : bs.reverse.lookup name = cs.reverse.lookup name := by
      by_cases hb : name = "b"
      · subst hb
        rfl
      · by_cases hother : name = "é"
        · subst hother
          rfl
        · simp [bs, cs, List.lookup_cons, beq_false_of_ne hb, beq_false_of_ne hother]
    rw [← lookup_reverse_eq_some_iff, hlookup, lookup_reverse_eq_some_iff]
  exact ⟨hlast, declarations_listed.2.2.1 bs cs hlast⟩

end Scope
end AssignLang
