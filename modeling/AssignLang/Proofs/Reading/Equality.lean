/-
# When programs are equal

Programs are compared with `==` token by token and value by value, and values as
doubles. A double is equal to itself unless it is NaN, so a program is equal to itself
unless a value in it is NaN. The numerals of a text never are. The comparison takes
the two zeros for one, but a numeral that was read has the value of its text; so of
the programs that were read none is equal to another one.

Key definitions: `Expr.unvalued`, `Program.unvalued`.
Key theorems: `Expr.beq_self_iff`, `Program.beq_self_iff`, `Program.beq_self_of_parse`,
`Program.unvalued_eq_of_beq`, `Program.IsRead.eq_of_unvalued`, `Program.IsRead.beq_iff`,
`equality_of_parsed`.
-/
import AssignLang.Proofs.Printing.RoundTrip

namespace AssignLang

theorem beq_self_iff_isNaN {x : Float} : (x == x) = true ↔ x.isNaN = false := by
  rw [Float.beq_iff_ne_nan_and_eq, Float.isNaN_eq_decide_eq_nan, decide_eq_false_iff_not]
  exact ⟨fun h => h.1, fun h => ⟨h, h, .inl rfl⟩⟩

/-- A list is equal to itself if its elements are. -/
theorem list_beq_self_iff {α : Type} [BEq α] (xs : List α) :
    (xs == xs) = true ↔ ∀ x ∈ xs, (x == x) = true := by
  induction xs with
  | nil => simp
  | cons x xs ih => rw [List.cons_beq_cons, Bool.and_eq_true, ih, List.forall_mem_cons]

theorem Literal.beq_self_iff {l : Literal} : (l == l) = true ↔ l.value.isNaN = false := by
  have hbeq : (l == l) = (l.token == l.token && l.value == l.value) := rfl
  rw [hbeq, beq_self_eq_true, Bool.true_and, beq_self_iff_isNaN]

/-- The numerals of an operation are those of its operands. -/
theorem Expr.forall_literals_binary {op : BinaryOp} {t : Token} {l r : Expr} {P : Literal → Prop} :
    (∀ x ∈ (binary op t l r).integers ++ (binary op t l r).reals, P x) ↔
      (∀ x ∈ l.integers ++ l.reals, P x) ∧ ∀ x ∈ r.integers ++ r.reals, P x := by
  simp only [integers, reals, List.forall_mem_append]
  exact and_and_and_comm

theorem Expr.beq_self_iff (e : Expr) :
    (e == e) = true ↔ ∀ l ∈ e.integers ++ e.reals, l.value.isNaN = false := by
  induction e with
  | integer l =>
    have hbeq : (integer l == integer l) = (l == l) := rfl
    simp [hbeq, Literal.beq_self_iff, integers, reals]
  | real l =>
    have hbeq : (real l == real l) = (l == l) := rfl
    simp [hbeq, Literal.beq_self_iff, integers, reals]
  | name t =>
    have hbeq : (name t == name t) = (t == t) := rfl
    simp [hbeq, integers, reals]
  | negate t e ih =>
    have hbeq : (negate t e == negate t e) = (t == t && e == e) := rfl
    rw [hbeq, beq_self_eq_true, Bool.true_and, ih]
    rfl
  | binary op t l r ihl ihr =>
    have hbeq : (binary op t l r == binary op t l r) = (op == op && (t == t && (l == l && r == r))) :=
      rfl
    rw [hbeq, beq_self_eq_true, beq_self_eq_true, Bool.true_and, Bool.true_and, Bool.and_eq_true,
      ihl, ihr, forall_literals_binary]

theorem Definition.beq_self_iff (d : Definition) :
    (d == d) = true ↔ ∀ l ∈ d.integers, l.value.isNaN = false := by
  cases d with
  | real keyword names =>
    have hbeq : (real keyword names == real keyword names) =
        (keyword == keyword && names == names) := rfl
    simp [hbeq, integers]
  | integer keyword literals =>
    have hbeq : (integer keyword literals == integer keyword literals) =
        (keyword == keyword && literals == literals) := rfl
    rw [hbeq, beq_self_eq_true, Bool.true_and, list_beq_self_iff]
    exact forall₂_congr fun l _ => Literal.beq_self_iff

theorem Assignment.beq_self_iff (a : Assignment) :
    (a == a) = true ↔ ∀ l ∈ a.integers ++ a.expr.reals, l.value.isNaN = false := by
  have hbeq : (a == a) = (a.label == a.label && (a.target == a.target && a.expr == a.expr)) := rfl
  have hlabel : (a.label == a.label) = true ↔ ∀ l ∈ a.label.toList, l.value.isNaN = false := by
    cases a.label with
    | none => simp
    | some l =>
      have hsome : (some l == some l) = (l == l) := rfl
      simp [hsome, Literal.beq_self_iff]
  rw [hbeq, Bool.and_eq_true, hlabel, beq_self_eq_true, Bool.true_and, a.expr.beq_self_iff,
    integers, List.append_assoc, ← List.forall_mem_append]

/-- **A program is equal to itself** exactly if no value in it is NaN. -/
theorem Program.beq_self_iff (p : Program) :
    (p == p) = true ↔ ∀ l ∈ p.integers ++ p.reals, l.value.isNaN = false := by
  have hbeq : (p == p) = (p.definitions == p.definitions && p.assignments == p.assignments) := rfl
  rw [hbeq, Bool.and_eq_true, list_beq_self_iff, list_beq_self_iff]
  simp only [Definition.beq_self_iff, Assignment.beq_self_iff, integers, reals,
    List.forall_mem_append, List.forall_mem_flatMap, imp_and, forall_and, and_assoc]

/-! ### Programs of texts -/

theorem Expr.unsigned_of_spelt {e : Expr} (h : ∀ n ∈ e.postOrder, n.Spelt) :
    ∀ l ∈ e.integers ++ e.reals, Unsigned l.value := by
  induction e with
  | integer l => exact List.forall_mem_singleton.mpr (h _ List.mem_cons_self)
  | real l => exact List.forall_mem_singleton.mpr (h _ List.mem_cons_self)
  | name t => simp [integers, reals]
  | negate t e ih => exact ih (List.forall_mem_append.mp h).1
  | binary op t l r ihl ihr =>
    obtain ⟨hl, hr⟩ := List.forall_mem_append.mp (List.forall_mem_append.mp h).1
    exact forall_literals_binary.mpr ⟨ihl hl, ihr hr⟩

theorem Assignment.Spelt.unsigned {a : Assignment} (h : a.Spelt) :
    ∀ l ∈ a.integers ++ a.expr.reals, Unsigned l.value := by
  rw [integers, List.append_assoc, List.forall_mem_append]
  exact ⟨fun l hl => h.label l (Option.mem_toList.mp hl), Expr.unsigned_of_spelt h.nodes⟩

theorem Program.Spelt.unsigned {p : Program} (h : p.Spelt) :
    ∀ l ∈ p.integers ++ p.reals, Unsigned l.value := by
  have hlisted : ∀ l ∈ p.definitions.flatMap Definition.integers, Unsigned l.value := by
    intro l hl
    obtain ⟨d, hd, hl⟩ := List.mem_flatMap.mp hl
    cases d with
    | real keyword names => cases hl
    | integer keyword literals => exact h.definitions _ hd l hl
  have hassigned : ∀ a ∈ p.assignments, ∀ l ∈ a.integers ++ a.expr.reals, Unsigned l.value :=
    fun a ha => (h.assignments a ha).unsigned
  simp only [integers, reals, List.forall_mem_append, List.forall_mem_flatMap] at hlisted hassigned ⊢
  exact ⟨⟨hlisted, fun a ha => (hassigned a ha).1⟩, fun a ha => (hassigned a ha).2⟩

/-- **A program that is read from a text is equal to itself.** -/
theorem Program.beq_self_of_parse {source : String} {ts : List Token} {p : Program}
    (hts : tokenize source = .ok ts) (hp : parse ts = .ok p) : (p == p) = true :=
  p.beq_self_iff.mpr fun l hl => ((spelt_of_parse hts hp).unsigned l hl).isNumber

/-! ### Two programs -/

/-- The numeral without its value. -/
def Literal.unvalued (l : Literal) : Literal := ⟨l.token, 0⟩

/-- The tree of an expression with its tokens, and without values. -/
def Expr.unvalued : Expr → Expr
  | integer l => integer l.unvalued
  | real l => real l.unvalued
  | name t => name t
  | negate t e => negate t e.unvalued
  | binary op t l r => binary op t l.unvalued r.unvalued

/-- The definition with its tokens, and without values. -/
def Definition.unvalued : Definition → Definition
  | real keyword names => real keyword names
  | integer keyword literals => integer keyword (literals.map Literal.unvalued)

/-- The assignment with its tokens, and without values. -/
def Assignment.unvalued (a : Assignment) : Assignment :=
  ⟨a.label.map Literal.unvalued, a.target, a.expr.unvalued⟩

/-- The tree of a program with its tokens, and without values. -/
def Program.unvalued (p : Program) : Program :=
  ⟨p.definitions.map Definition.unvalued, p.assignments.map Assignment.unvalued⟩

/-! ### Equal programs have one tree

Values are only compared, so of what `==` says of two values nothing is used here. -/

theorem list_map_eq_of_beq {α β : Type} [BEq α] {f : α → β}
    (hf : ∀ x y : α, (x == y) = true → f x = f y) :
    ∀ {xs ys : List α}, (xs == ys) = true → xs.map f = ys.map f
  | [], [], _ => rfl
  | [], _ :: _, h => absurd h Bool.false_ne_true
  | _ :: _, [], h => absurd h Bool.false_ne_true
  | x :: xs, y :: ys, h => by
    obtain ⟨hhead, htail⟩ := Bool.and_eq_true_iff.mp h
    rw [List.map_cons, List.map_cons, hf x y hhead, list_map_eq_of_beq hf htail]

theorem Literal.unvalued_eq_of_beq {l m : Literal} (h : (l == m) = true) :
    l.unvalued = m.unvalued := by
  obtain ⟨htoken, -⟩ := Bool.and_eq_true_iff.mp h
  rw [unvalued, unvalued, eq_of_beq htoken]

theorem Expr.unvalued_eq_of_beq {e f : Expr} (h : (e == f) = true) : e.unvalued = f.unvalued := by
  induction e generalizing f with
  | integer l =>
    cases f with
    | integer m => exact congrArg integer (Literal.unvalued_eq_of_beq h)
    | _ => exact absurd h Bool.false_ne_true
  | real l =>
    cases f with
    | real m => exact congrArg real (Literal.unvalued_eq_of_beq h)
    | _ => exact absurd h Bool.false_ne_true
  | name t =>
    cases f with
    | name u => exact congrArg name (eq_of_beq h)
    | _ => exact absurd h Bool.false_ne_true
  | negate t e ih =>
    cases f with
    | negate u f =>
      obtain ⟨htoken, hoperand⟩ := Bool.and_eq_true_iff.mp h
      rw [unvalued, unvalued, eq_of_beq htoken, ih hoperand]
    | _ => exact absurd h Bool.false_ne_true
  | binary op t l r ihl ihr =>
    cases f with
    | binary op' u l' r' =>
      obtain ⟨hop, hrest⟩ := Bool.and_eq_true_iff.mp h
      obtain ⟨htoken, hoperands⟩ := Bool.and_eq_true_iff.mp hrest
      obtain ⟨hleft, hright⟩ := Bool.and_eq_true_iff.mp hoperands
      rw [unvalued, unvalued, eq_of_beq hop, eq_of_beq htoken, ihl hleft, ihr hright]
    | _ => exact absurd h Bool.false_ne_true

theorem Definition.unvalued_eq_of_beq {d d' : Definition} (h : (d == d') = true) :
    d.unvalued = d'.unvalued := by
  cases d with
  | real keyword names =>
    cases d' with
    | real keyword' names' =>
      obtain ⟨hkeyword, hnames⟩ := Bool.and_eq_true_iff.mp h
      rw [eq_of_beq hkeyword, eq_of_beq hnames]
    | integer _ _ => exact absurd h Bool.false_ne_true
  | integer keyword literals =>
    cases d' with
    | real _ _ => exact absurd h Bool.false_ne_true
    | integer keyword' literals' =>
      obtain ⟨hkeyword, hliterals⟩ := Bool.and_eq_true_iff.mp h
      rw [unvalued, unvalued, eq_of_beq hkeyword,
        list_map_eq_of_beq (fun _ _ => Literal.unvalued_eq_of_beq) hliterals]

theorem Assignment.unvalued_eq_of_beq {a b : Assignment} (h : (a == b) = true) :
    a.unvalued = b.unvalued := by
  obtain ⟨hlabel, hrest⟩ := Bool.and_eq_true_iff.mp h
  obtain ⟨htarget, hexpr⟩ := Bool.and_eq_true_iff.mp hrest
  have hlabels : ∀ {l m : Option Literal}, (l == m) = true →
      l.map Literal.unvalued = m.map Literal.unvalued
    | none, none, _ => rfl
    | none, some _, h => absurd h Bool.false_ne_true
    | some _, none, h => absurd h Bool.false_ne_true
    | some _, some _, h => congrArg some (Literal.unvalued_eq_of_beq h)
  rw [unvalued, unvalued, hlabels hlabel, eq_of_beq htarget, Expr.unvalued_eq_of_beq hexpr]

/-- Programs are equal exactly if their definitions and their assignments are. -/
theorem Program.beq_iff_parts {p q : Program} :
    (p == q) = true ↔ (p.definitions == q.definitions) = true ∧
      (p.assignments == q.assignments) = true :=
  Bool.and_eq_true_iff

theorem Program.unvalued_eq_of_beq {p q : Program} (h : (p == q) = true) :
    p.unvalued = q.unvalued := by
  obtain ⟨hdefinitions, hassignments⟩ := beq_iff_parts.mp h
  rw [unvalued, unvalued, list_map_eq_of_beq (fun _ _ => Definition.unvalued_eq_of_beq) hdefinitions,
    list_map_eq_of_beq (fun _ _ => Assignment.unvalued_eq_of_beq) hassignments]

/-! ### The values are those of the texts

A numeral that was read has the value of its text. So what was read is determined by
its tree and its tokens. -/

/-- A map is determined by another one on elements on which it is. -/
theorem map_eq_map_of_forall {α β γ : Type} {f : α → β} {g : α → γ} {P : α → Prop}
    (hfg : ∀ x y, P x → P y → f x = f y → g x = g y) :
    ∀ {xs ys : List α}, (∀ x ∈ xs, P x) → (∀ y ∈ ys, P y) → xs.map f = ys.map f →
      xs.map g = ys.map g
  | [], ys, _, _, h => by rw [List.map_eq_nil_iff.mp h.symm]
  | x :: xs, ys, hxs, hys, h => by
    obtain ⟨y, ys', rfl, hhead, htail⟩ := List.map_eq_cons_iff.mp h.symm
    obtain ⟨hx, hxs⟩ := List.forall_mem_cons.mp hxs
    obtain ⟨hy, hys⟩ := List.forall_mem_cons.mp hys
    rw [List.map_cons, List.map_cons, hfg x y hx hy hhead.symm,
      map_eq_map_of_forall hfg hxs hys htail.symm]

/-- Lists are determined by a map that determines their elements. -/
theorem list_eq_of_map_eq {α β : Type} {f : α → β} {P : α → Prop}
    (hf : ∀ x y, P x → P y → f x = f y → x = y) {xs ys : List α} (hxs : ∀ x ∈ xs, P x)
    (hys : ∀ y ∈ ys, P y) (h : xs.map f = ys.map f) : xs = ys := by
  have hid := map_eq_map_of_forall (g := id) hf hxs hys h
  rwa [List.map_id, List.map_id] at hid

theorem Literal.IsRead.eq_of_unvalued {k k' : Kind} {l m : Literal} (hl : l.IsRead k)
    (hm : m.IsRead k') (h : l.unvalued = m.unvalued) : l = m := by
  obtain ⟨token, value⟩ := l
  obtain ⟨token', value'⟩ := m
  obtain rfl : token = token' := congrArg Literal.token h
  have hvalue : Except.ok value = Except.ok value' := hl.2.symm.trans hm.2
  rw [Except.ok.inj hvalue]

theorem Expr.IsRead.eq_of_unvalued {e f : Expr} (he : e.IsRead) (hf : f.IsRead)
    (h : e.unvalued = f.unvalued) : e = f := by
  induction e generalizing f with
  | integer l =>
    cases f with
    | integer m => exact congrArg integer (Literal.IsRead.eq_of_unvalued he hf (integer.inj h))
    | _ => cases h
  | real l =>
    cases f with
    | real m => exact congrArg real (Literal.IsRead.eq_of_unvalued he hf (real.inj h))
    | _ => cases h
  | name t =>
    cases f with
    | name u => exact h
    | _ => cases h
  | negate t e ih =>
    cases f with
    | negate u f =>
      obtain ⟨rfl, hoperand⟩ := negate.inj h
      rw [ih he.2 hf.2 hoperand]
    | _ => cases h
  | binary op t l r ihl ihr =>
    cases f with
    | binary op' u l' r' =>
      obtain ⟨rfl, rfl, hleft, hright⟩ := binary.inj h
      rw [ihl he.2.1 hf.2.1 hleft, ihr he.2.2 hf.2.2 hright]
    | _ => cases h

theorem Definition.IsRead.eq_of_unvalued {d d' : Definition} (hd : d.IsRead) (hd' : d'.IsRead)
    (h : d.unvalued = d'.unvalued) : d = d' := by
  cases d with
  | real keyword names =>
    cases d' with
    | real keyword' names' => exact h
    | integer _ _ => cases h
  | integer keyword literals =>
    cases d' with
    | real _ _ => cases h
    | integer keyword' literals' =>
      obtain ⟨rfl, hliterals⟩ := integer.inj h
      rw [list_eq_of_map_eq (fun _ _ => Literal.IsRead.eq_of_unvalued) hd.2.2 hd'.2.2 hliterals]

theorem Assignment.IsRead.eq_of_unvalued {a b : Assignment} (ha : a.IsRead) (hb : b.IsRead)
    (h : a.unvalued = b.unvalued) : a = b := by
  obtain ⟨label, target, e⟩ := a
  obtain ⟨label', target', e'⟩ := b
  obtain ⟨hlabel, htarget, hexpr⟩ := Assignment.mk.inj h
  have htargets : target = target' := htarget
  have hexprs : e = e' := ha.expr.eq_of_unvalued hb.expr hexpr
  have hlabels : label = label' := by
    cases label with
    | none => exact (Option.map_eq_none_iff.mp hlabel.symm).symm
    | some l =>
      obtain ⟨m, hm, hlm⟩ := Option.map_eq_some_iff.mp hlabel.symm
      have hsome : label' = some m := hm
      rw [hsome, (ha.label l rfl).eq_of_unvalued (hb.label m hm) hlm.symm]
  rw [hlabels, htargets, hexprs]

/-- **What was read is determined by its tree and its tokens.** -/
theorem Program.IsRead.eq_of_unvalued {p q : Program} (hp : p.IsRead) (hq : q.IsRead)
    (h : p.unvalued = q.unvalued) : p = q := by
  obtain ⟨definitions, assignments⟩ := p
  obtain ⟨definitions', assignments'⟩ := q
  obtain ⟨hdefinitions, hassignments⟩ := Program.mk.inj h
  have hds : definitions = definitions' := list_eq_of_map_eq
    (fun _ _ => Definition.IsRead.eq_of_unvalued) hp.definitions hq.definitions hdefinitions
  have has : assignments = assignments' := list_eq_of_map_eq
    (fun _ _ => Assignment.IsRead.eq_of_unvalued) hp.assignments hq.assignments hassignments
  rw [hds, has]

/-- Of programs that were read only the same one can be equal to a program. -/
theorem Program.IsRead.eq_of_beq {p q : Program} (hp : p.IsRead) (hq : q.IsRead)
    (h : (p == q) = true) : p = q :=
  hp.eq_of_unvalued hq (unvalued_eq_of_beq h)

/-- Programs that were read are equal exactly if they have one tree with the same
tokens, and no value in them is NaN. -/
theorem Program.IsRead.beq_iff {p q : Program} (hp : p.IsRead) (hq : q.IsRead) :
    (p == q) = true ↔ p.unvalued = q.unvalued ∧
      (∀ l ∈ p.integers ++ p.reals, l.value.isNaN = false) ∧
      ∀ l ∈ q.integers ++ q.reals, l.value.isNaN = false := by
  constructor
  · intro h
    obtain rfl := hp.eq_of_beq hq h
    exact ⟨rfl, p.beq_self_iff.mp h, p.beq_self_iff.mp h⟩
  · rintro ⟨h, hnumbers, -⟩
    obtain rfl := hp.eq_of_unvalued hq h
    exact p.beq_self_iff.mpr hnumbers

/-- **What equality of programs means.** Programs that were read, from whatever tokens,
are equal exactly if they are the same tree with the same tokens and hold no NaN. So
equality is symmetric and transitive, only a NaN keeps a program from being equal to
itself, which no text writes, and equal programs have one text and run alike. -/
theorem equality_of_parsed {ts us vs : List Token} {p q r : Program} (hp : parse ts = .ok p)
    (hq : parse us = .ok q) (hr : parse vs = .ok r) :
    ((p == q) = true ↔ p.unvalued = q.unvalued ∧
      (∀ l ∈ p.integers ++ p.reals, l.value.isNaN = false) ∧
      ∀ l ∈ q.integers ++ q.reals, l.value.isNaN = false) ∧
    (p == q) = (q == p) ∧
    ((p == q) = true → (q == r) = true → (p == r) = true) ∧
    ((p == p) = false ↔ ∃ l ∈ p.integers ++ p.reals, l.value.isNaN = true) ∧
    (∀ source, tokenize source = .ok ts → (p == p) = true) ∧
    ((p == q) = true ↔ (p.definitions == q.definitions) = true ∧
      (p.assignments == q.assignments) = true) ∧
    ((p == q) = true → p.text = q.text ∧ ∀ s, p.run s = q.run s) := by
  have hpRead := isRead_of_parse hp
  have hqRead := isRead_of_parse hq
  have hrRead := isRead_of_parse hr
  refine ⟨hpRead.beq_iff hqRead, ?_, fun hpq hqr => ?_, ?_, fun source hts => ?_,
    Program.beq_iff_parts, fun h => ?_⟩
  · rw [Bool.eq_iff_iff, hpRead.beq_iff hqRead, hqRead.beq_iff hpRead, eq_comm]
    exact and_congr_right fun _ => and_comm
  · obtain rfl := hpRead.eq_of_beq hqRead hpq
    exact hqr
  · rw [← Bool.not_eq_true, p.beq_self_iff]
    simp only [not_forall, exists_prop, Bool.not_eq_false]
  · exact Program.beq_self_of_parse hts hp
  · obtain rfl := hpRead.eq_of_beq hqRead h
    exact ⟨rfl, fun _ => rfl⟩

/-- Tokens that no text has: a numeral that is NaN, and one with a sign. -/
theorem equality_of_parsed_nan :
    let assigning (k : Kind) (text : String) : List Token := [.sample .beginWord "begin",
      .sample .newline "\n", .sample .identifier "x", .sample .assign "=", .sample k text,
      .sample .newline "\n", .sample .endWord "end"]
    ∃ p q r, parse (assigning .literalReal "NaN") = .ok p ∧
      parse (assigning .literalInt "0") = .ok q ∧ parse (assigning .literalInt "-0") = .ok r ∧
      (p == p) = false ∧ (p == q) = (q == p) ∧ q.unvalued ≠ r.unvalued ∧ (q == r) = false := by
  intro assigning
  obtain ⟨p, hp, hnan⟩ : ∃ p, parse (assigning .literalReal "NaN") = .ok p ∧
      ∃ l ∈ p.integers ++ p.reals, l.value.isNaN = true :=
    ⟨_, rfl, _, List.mem_singleton_self _, by decide⟩
  obtain ⟨q, r, hq, hr, hdiffer⟩ : ∃ q r, parse (assigning .literalInt "0") = .ok q ∧
      parse (assigning .literalInt "-0") = .ok r ∧ q.unvalued ≠ r.unvalued :=
    ⟨_, _, rfl, rfl, fun h => absurd (congrArg Program.tokens h) (by decide)⟩
  obtain ⟨-, hsymm, -, hself, -⟩ := equality_of_parsed hp hq hr
  obtain ⟨hiff, -⟩ := equality_of_parsed hq hr hp
  refine ⟨p, q, r, hp, hq, hr, hself.mpr hnan, hsymm, hdiffer, ?_⟩
  exact Bool.eq_false_iff.mpr fun h => hdiffer (hiff.mp h).1

end AssignLang
