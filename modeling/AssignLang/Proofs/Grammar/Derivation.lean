/-
# The grammar of programs

A program is `begin`, its definitions, its assignments and `end`. `begin` and
each statement stand on a line of their own, which ends with one or more line
feeds, so that blank lines belong to the line before them. A definition is
`real` and names or `integer` and whole numbers, at least one; an assignment is
a target, an equals sign and a sum, with a label and a colon before it or
without.

A `Derivation` is matched by the kinds of the tokens alone, as a `Phrase` is;
`Derivation.program?` is the program it stands for.

Key definitions: `Line`, `DefinitionLine`, `AssignmentLine`, `Body`,
`Derivation`, `Derivation.tokens`, `Derivation.program?`.
Key theorems: `Derivation.isSome_program?_iff`, `Derivation.tokens_inj`.
-/
import AssignLang.Proofs.Grammar.Unambiguous
import AssignLang.Proofs.Runs

namespace AssignLang

/-- A part of a program with the line feeds that end its line. -/
@[ext]
structure Line (α : Type) where
  content : α
  breaks : List Token
  breaks_ne_nil : breaks ≠ []
  breaks_kind : ∀ t ∈ breaks, t.kind = .newline

/-- What a definition with a keyword of this kind lists. -/
def Kind.listed? : Kind → Option Kind
  | realWord => some identifier
  | integerWord => some literalInt
  | _ => none

/-- A keyword and what it lists. -/
@[ext]
structure DefinitionLine where
  keyword : Token
  items : List Token
  items_ne_nil : items ≠ []
  items_kind : ∀ t ∈ items, keyword.kind.listed? = some t.kind

/-- A target and its expression. A label comes with its colon. -/
@[ext]
structure AssignmentLine where
  label : Option (Terminal .literalInt × Terminal .colon)
  target : Terminal .identifier
  equals : Terminal .assign
  expr : Phrase (.chain .sum)

/-- A program up to its `end`. -/
@[ext]
structure Body where
  opening : Line (Terminal .beginWord)
  definitions : List (Line DefinitionLine)
  assignments : List (Line AssignmentLine)

/-- The derivations of the grammar of programs. -/
@[ext]
structure Derivation where
  body : Body
  closing : Terminal .endWord

namespace Line

variable {α : Type}

/-- The tokens of a line. -/
def tokens (f : α → List Token) (l : Line α) : List Token := f l.content ++ l.breaks

/-- The tokens of lines, one after the other. -/
def allTokens (f : α → List Token) (ls : List (Line α)) : List Token := ls.flatMap (tokens f)

end Line

/-- The tokens of a definition, without its line feed. -/
def DefinitionLine.tokens (d : DefinitionLine) : List Token := d.keyword :: d.items

/-- The tokens of a label with its colon. -/
def AssignmentLine.labelTokens (a : AssignmentLine) : List Token :=
  match a.label with
  | some (l, colon) => [l.1, colon.1]
  | none => []

/-- The tokens of an assignment, without its line feed. -/
def AssignmentLine.tokens (a : AssignmentLine) : List Token :=
  a.labelTokens ++ a.target.1 :: a.equals.1 :: a.expr.tokens

/-- The tokens up to `end`. -/
def Body.tokens (b : Body) : List Token :=
  b.opening.tokens (fun t => [t.1]) ++ Line.allTokens DefinitionLine.tokens b.definitions ++
    Line.allTokens AssignmentLine.tokens b.assignments

/-- The tokens of a program. -/
def Derivation.tokens (d : Derivation) : List Token := d.body.tokens ++ [d.closing.1]

/-- The definition that a line stands for. -/
def DefinitionLine.definition? (d : DefinitionLine) : Option Definition :=
  match d.keyword.kind with
  | .realWord => some (.real d.keyword d.items)
  | _ => (d.items.mapM Literal.read?).map (.integer d.keyword)

/-- The label that a line stands for. -/
def AssignmentLine.label? (a : AssignmentLine) : Option (Option Literal) :=
  match a.label with
  | some (l, _) => (Literal.read? l.1).map some
  | none => some none

/-- The assignment that a line stands for. -/
def AssignmentLine.assignment? (a : AssignmentLine) : Option Assignment :=
  a.label?.bind fun label => a.expr.expr?.map fun e => ⟨label, a.target.1, e⟩

/-- The definitions that lines stand for. -/
def DefinitionLine.definitions? (ls : List (Line DefinitionLine)) : Option (List Definition) :=
  ls.mapM fun l => l.content.definition?

/-- The assignments that lines stand for. -/
def AssignmentLine.assignments? (ls : List (Line AssignmentLine)) : Option (List Assignment) :=
  ls.mapM fun l => l.content.assignment?

/-- The program that a body stands for. -/
def Body.program? (b : Body) : Option Program :=
  (DefinitionLine.definitions? b.definitions).bind fun ds =>
    (AssignmentLine.assignments? b.assignments).map fun as => ⟨ds, as⟩

/-- The program that a derivation stands for. -/
def Derivation.program? (d : Derivation) : Option Program := d.body.program?

/-! ### When a derivation stands for a program -/

theorem isSome_mapM_iff {α β : Type} {f : α → Option β} :
    ∀ {l : List α}, (l.mapM f).isSome ↔ ∀ a ∈ l, (f a).isSome
  | [] => by simp
  | a :: l => by
    have ih := isSome_mapM_iff (f := f) (l := l)
    rw [List.mapM_cons, List.forall_mem_cons, ← ih]
    cases f a <;> cases l.mapM f <;> simp

theorem eq_nil_of_mapM_eq_nil {α β : Type} {f : α → Option β} {l : List α}
    (h : l.mapM f = some []) : l = [] := by
  cases l with
  | nil => rfl
  | cons a l => simp [List.mapM_cons, Option.bind_eq_some_iff] at h

theorem Token.spelt_literalInt_iff {t : Token} (h : t.kind = .literalInt) :
    t.Spelt ↔ (Literal.read? t).isSome := by
  rw [Literal.isSome_read?_iff]
  exact ⟨fun hs => hs.1 (.inl h), fun hx => ⟨fun _ => hx, fun hs => by simp [h] at hs⟩⟩

theorem Line.spelt_allTokens_iff {α : Type} {f : α → List Token} {ls : List (Line α)} :
    (∀ t ∈ allTokens f ls, t.Spelt) ↔ ∀ l ∈ ls, ∀ t ∈ f l.content, t.Spelt := by
  simp only [allTokens, List.mem_flatMap, tokens, List.mem_append]
  constructor
  · exact fun h l hl t ht => h t ⟨l, hl, .inl ht⟩
  · rintro h t ⟨l, hl, ht | ht⟩
    · exact h l hl t ht
    · exact Token.spelt_of_kind (l.breaks_kind t ht) (by decide)

/-- A definition lists names after `real` and whole numbers after `integer`. -/
theorem DefinitionLine.kinds (d : DefinitionLine) :
    (d.keyword.kind = .realWord ∧ ∀ t ∈ d.items, t.kind = .identifier) ∨
      (d.keyword.kind = .integerWord ∧ ∀ t ∈ d.items, t.kind = .literalInt) := by
  obtain ⟨t, ht⟩ := List.exists_mem_of_ne_nil _ d.items_ne_nil
  have hi := d.items_kind
  have hk := hi t ht
  cases hkw : d.keyword.kind <;> simp only [hkw, Kind.listed?, reduceCtorEq, Option.some.injEq] at hk hi
  · exact .inl ⟨rfl, fun u hu => (hi u hu).symm⟩
  · exact .inr ⟨rfl, fun u hu => (hi u hu).symm⟩

theorem DefinitionLine.isSome_definition?_iff (d : DefinitionLine) :
    d.definition?.isSome ↔ ∀ t ∈ d.tokens, t.Spelt := by
  unfold definition? tokens
  rcases d.kinds with ⟨hk, hi⟩ | ⟨hk, hi⟩
  · have hkey : d.keyword.Spelt := Token.spelt_of_kind hk (by decide)
    have hitems : ∀ t ∈ d.items, t.Spelt := fun t ht => Token.spelt_of_kind (hi t ht) (by decide)
    simp only [hk, List.forall_mem_cons, hkey, true_and]
    exact ⟨fun _ => hitems, fun _ => rfl⟩
  · have hkey : d.keyword.Spelt := Token.spelt_of_kind hk (by decide)
    simp only [hk, Option.isSome_map, isSome_mapM_iff, List.forall_mem_cons, hkey, true_and]
    exact forall_congr' fun t => forall_congr' fun ht => (Token.spelt_literalInt_iff (hi t ht)).symm

theorem AssignmentLine.isSome_assignment?_iff (a : AssignmentLine) :
    a.assignment?.isSome ↔ ∀ t ∈ a.tokens, t.Spelt := by
  have he := a.expr.isSome_expr?_iff
  have ht : a.target.1.Spelt := Token.spelt_of_kind a.target.2 (by decide)
  have hq : a.equals.1.Spelt := Token.spelt_of_kind a.equals.2 (by decide)
  unfold assignment? label? tokens labelTokens
  cases a.label with
  | none =>
    simp only [List.nil_append, List.forall_mem_cons, ht, hq, true_and, ← he]
    cases a.expr.expr? <;> simp
  | some p =>
    obtain ⟨l, colon⟩ := p
    have hc : colon.1.Spelt := Token.spelt_of_kind colon.2 (by decide)
    simp only [List.cons_append, List.nil_append, List.forall_mem_cons, ht, hq, hc, true_and, ← he,
      Token.spelt_literalInt_iff l.2]
    cases Literal.read? l.1 <;> cases a.expr.expr? <;> simp

/-- A derivation stands for a program exactly when the literals among its tokens
are numerals and the signs are operators. -/
theorem Derivation.isSome_program?_iff (d : Derivation) :
    d.program?.isSome ↔ ∀ t ∈ d.tokens, t.Spelt := by
  have hds : (DefinitionLine.definitions? d.body.definitions).isSome ↔
      ∀ t ∈ Line.allTokens DefinitionLine.tokens d.body.definitions, t.Spelt := by
    simp only [DefinitionLine.definitions?, isSome_mapM_iff, Line.spelt_allTokens_iff,
      DefinitionLine.isSome_definition?_iff]
  have has : (AssignmentLine.assignments? d.body.assignments).isSome ↔
      ∀ t ∈ Line.allTokens AssignmentLine.tokens d.body.assignments, t.Spelt := by
    simp only [AssignmentLine.assignments?, isSome_mapM_iff, Line.spelt_allTokens_iff,
      AssignmentLine.isSome_assignment?_iff]
  have hopen : ∀ t ∈ d.body.opening.tokens (fun t => [t.1]), t.Spelt := by
    intro t ht
    rcases List.mem_append.mp ht with ht | ht
    · obtain rfl := List.mem_singleton.mp ht
      exact Token.spelt_of_kind d.body.opening.content.2 (by decide)
    · exact Token.spelt_of_kind (d.body.opening.breaks_kind t ht) (by decide)
  have hend : d.closing.1.Spelt := Token.spelt_of_kind d.closing.2 (by decide)
  simp only [tokens, Body.tokens, List.forall_mem_append, List.forall_mem_singleton, ← hds, ← has,
    iff_true_intro hopen, hend, and_true, true_and, program?, Body.program?]
  cases DefinitionLine.definitions? d.body.definitions <;>
    cases AssignmentLine.assignments? d.body.assignments <;> simp

/-! ### A derivation is determined by its tokens

Every line ends with line feeds and has none before, so the line feeds cut the
tokens into the same lines; the first token of a line says whether it is a
definition, an assignment or the end. -/

namespace Line

variable {α : Type} {f : α → List Token}

/-- No line feed comes next. -/
def Unbroken (u : List Token) : Prop := ∀ t ∈ u.head?, t.kind ≠ .newline

theorem exists_break (l : Line α) : ∃ t w, l.breaks = t :: w ∧ t.kind = .newline := by
  cases hb : l.breaks with
  | nil => exact absurd hb l.breaks_ne_nil
  | cons t w => exact ⟨t, w, rfl, l.breaks_kind t (by simp [hb])⟩

/-- A line is determined by its tokens if its content is, and so is its end. -/
theorem eq_of_tokens_append_eq (hinj : ∀ a b, f a = f b → a = b)
    (hf : ∀ a, ∀ t ∈ f a, t.kind ≠ .newline) {l m : Line α} {u v : List Token} (hu : Unbroken u)
    (hv : Unbroken v) (h : l.tokens f ++ u = m.tokens f ++ v) : l = m ∧ u = v := by
  have hbreak : ∀ (n : Line α) (w : List Token), ∀ t ∈ (n.breaks ++ w).head?,
      (t.kind != .newline) = false := by
    intro n w t ht
    obtain ⟨b, r, hb, hk⟩ := n.exists_break
    rw [hb] at ht
    obtain rfl : b = t := by simpa using ht
    simp [hk]
  have hother : ∀ {w : List Token}, Unbroken w → ∀ t ∈ w.head?, (t.kind == .newline) = false :=
    fun hw t ht => by simpa using hw t ht
  rw [tokens, tokens, List.append_assoc, List.append_assoc] at h
  obtain ⟨hc, h⟩ := append_inj_of_forall (fun t ht => by simpa using hf _ t ht)
    (fun t ht => by simpa using hf _ t ht) (hbreak l u) (hbreak m v) h
  obtain ⟨hb, h⟩ := append_inj_of_forall (p := fun t => t.kind == .newline)
    (fun t ht => by simpa using l.breaks_kind t ht) (fun t ht => by simpa using m.breaks_kind t ht)
    (hother hu) (hother hv) h
  exact ⟨Line.ext (hinj _ _ hc) hb, h⟩

/-- After lines comes the start of a line or what follows them. -/
theorem start_or_mem_head? {start : Kind → Bool}
    (hstart : ∀ a, ∃ t w, f a = t :: w ∧ start t.kind = true) {ls : List (Line α)} {u : List Token}
    {t : Token} (ht : t ∈ (allTokens f ls ++ u).head?) : start t.kind = true ∨ t ∈ u.head? := by
  cases ls with
  | nil => exact .inr ht
  | cons l ls =>
    obtain ⟨x, w, hx, hk⟩ := hstart l.content
    obtain rfl : x = t := by simpa [allTokens, tokens, hx] using ht
    exact .inl hk

theorem unbroken_append {start : Kind → Bool} (hf : ∀ a, ∀ t ∈ f a, t.kind ≠ .newline)
    (hstart : ∀ a, ∃ t w, f a = t :: w ∧ start t.kind = true) {ls : List (Line α)}
    {u : List Token} (hu : Unbroken u) : Unbroken (allTokens f ls ++ u) := by
  cases ls with
  | nil => exact hu
  | cons l ls =>
    obtain ⟨t, w, ht, -⟩ := hstart l.content
    intro x hx
    obtain rfl : t = x := by simpa [allTokens, tokens, ht] using hx
    exact hf l.content t (by simp [ht])

/-- Lines are determined by their tokens if what comes after them is no such
line. -/
theorem eq_of_allTokens_append_eq {start : Kind → Bool} (hinj : ∀ a b, f a = f b → a = b)
    (hf : ∀ a, ∀ t ∈ f a, t.kind ≠ .newline)
    (hstart : ∀ a, ∃ t w, f a = t :: w ∧ start t.kind = true) :
    ∀ (ls ms : List (Line α)) {u v : List Token},
      (∀ t ∈ u.head?, start t.kind = false) → (∀ t ∈ v.head?, start t.kind = false) →
      Unbroken u → Unbroken v → allTokens f ls ++ u = allTokens f ms ++ v → ls = ms ∧ u = v
  | [], [], u, v, _, _, _, _, h => ⟨rfl, h⟩
  | [], m :: ms, u, v, hu, _, _, _, h => by
    obtain ⟨t, w, ht, hk⟩ := hstart m.content
    have := hu t (by simp [show u = allTokens f (m :: ms) ++ v from h, allTokens, tokens, ht])
    rw [hk] at this
    cases this
  | l :: ls, [], u, v, _, hv, _, _, h => by
    obtain ⟨t, w, ht, hk⟩ := hstart l.content
    have := hv t (by simp [show v = allTokens f (l :: ls) ++ u from h.symm, allTokens, tokens, ht])
    rw [hk] at this
    cases this
  | l :: ls, m :: ms, u, v, hu, hv, hu', hv', h => by
    simp only [allTokens, List.flatMap_cons, List.append_assoc] at h
    obtain ⟨rfl, hr⟩ := eq_of_tokens_append_eq hinj hf (unbroken_append hf hstart hu')
      (unbroken_append hf hstart hv') h
    obtain ⟨rfl, huv⟩ := eq_of_allTokens_append_eq hinj hf hstart ls ms hu hv hu' hv' hr
    exact ⟨rfl, huv⟩

end Line

theorem DefinitionLine.tokens_inj (a b : DefinitionLine) (h : a.tokens = b.tokens) : a = b := by
  obtain ⟨hk, hi⟩ := List.cons.inj h
  exact DefinitionLine.ext hk hi

theorem AssignmentLine.tokens_inj (a b : AssignmentLine) (h : a.tokens = b.tokens) : a = b := by
  obtain ⟨label, target, equals, expr⟩ := a
  obtain ⟨label', target', equals', expr'⟩ := b
  have htargets : ∀ (x : Terminal .identifier) (y : Terminal .literalInt), x.1 ≠ y.1 := by
    intro x y hxy
    have hk := x.2
    rw [hxy, y.2] at hk
    cases hk
  simp only [tokens, labelTokens] at h
  cases label with
  | none =>
    cases label' with
    | none =>
      simp only [List.nil_append, List.cons.injEq, ← Subtype.ext_iff] at h
      obtain ⟨rfl, rfl, he⟩ := h
      rw [Phrase.tokens_inj he]
    | some l' => exact absurd (List.cons.inj h).1 (htargets _ _)
  | some l =>
    cases label' with
    | none => exact absurd (List.cons.inj h).1.symm (htargets _ _)
    | some l' =>
      simp only [List.cons_append, List.nil_append, List.cons.injEq, ← Subtype.ext_iff] at h
      obtain ⟨hl, hc, rfl, rfl, he⟩ := h
      rw [Phrase.tokens_inj he, Prod.ext hl hc]

/-- The kinds a definition starts with. -/
def Kind.startsDefinition (k : Kind) : Bool := k.listed?.isSome

/-- The kinds an assignment starts with. -/
def Kind.startsAssignment (k : Kind) : Bool := k == literalInt || k == identifier

theorem DefinitionLine.exists_start (d : DefinitionLine) :
    ∃ t w, d.tokens = t :: w ∧ t.kind.startsDefinition = true := by
  refine ⟨d.keyword, d.items, rfl, ?_⟩
  rcases d.kinds with ⟨hk, -⟩ | ⟨hk, -⟩ <;> rw [hk] <;> rfl

theorem DefinitionLine.unbroken (d : DefinitionLine) : ∀ t ∈ d.tokens, t.kind ≠ .newline := by
  intro t ht hn
  rcases List.mem_cons.mp ht with rfl | ht <;> rcases d.kinds with ⟨hk, hi⟩ | ⟨hk, hi⟩
  · simp [hk] at hn
  · simp [hk] at hn
  · simp [hi t ht] at hn
  · simp [hi t ht] at hn

theorem AssignmentLine.exists_start (a : AssignmentLine) :
    ∃ t w, a.tokens = t :: w ∧ t.kind.startsAssignment = true := by
  unfold tokens labelTokens
  cases a.label with
  | none => exact ⟨_, _, rfl, by rw [a.target.2]; rfl⟩
  | some l => exact ⟨_, _, rfl, by rw [l.1.2]; rfl⟩

theorem AssignmentLine.unbroken (a : AssignmentLine) : ∀ t ∈ a.tokens, t.kind ≠ .newline := by
  have hlabel : ∀ t ∈ a.labelTokens, t.kind ≠ .newline := by
    unfold labelTokens
    cases a.label with
    | none => simp
    | some l => simp [l.1.2, l.2.2]
  have hexpr : ∀ t ∈ a.expr.tokens, t.kind ≠ .newline := by
    intro t ht hn
    have hin := a.expr.inExpression_of_mem ht
    rw [hn] at hin
    cases hin
  simp only [tokens, List.forall_mem_append, List.forall_mem_cons, a.target.2, a.equals.2]
  exact ⟨hlabel, by decide, by decide, hexpr⟩

/-- What comes after the definitions: an assignment or `end`. -/
theorem Body.kind_of_mem_head? {as : List (Line AssignmentLine)} {closing : Terminal .endWord}
    {t : Token} (ht : t ∈ (Line.allTokens AssignmentLine.tokens as ++ [closing.1]).head?) :
    t.kind.startsAssignment = true ∨ t.kind = .endWord := by
  refine (Line.start_or_mem_head? AssignmentLine.exists_start ht).imp_right fun h => ?_
  obtain rfl : closing.1 = t := by simpa using h
  exact closing.2

/-- **A derivation is determined by its tokens.** -/
theorem Derivation.tokens_inj {d e : Derivation} (h : d.tokens = e.tokens) : d = e := by
  obtain ⟨⟨opening, ds, as⟩, closing⟩ := d
  obtain ⟨⟨opening', ds', as'⟩, closing'⟩ := e
  have hend : ∀ {c : Terminal .endWord}, ∀ t ∈ [c.1].head?, t.kind = .endWord := by
    intro c t ht
    obtain rfl : c.1 = t := by simpa using ht
    exact c.2
  have hsplit : ∀ {as : List (Line AssignmentLine)} {c : Terminal .endWord},
      ∀ t ∈ (Line.allTokens AssignmentLine.tokens as ++ [c.1]).head?,
      t.kind.startsDefinition = false ∧ t.kind ≠ .newline := by
    intro as c t ht
    have hk := Body.kind_of_mem_head? ht
    revert hk
    cases t.kind <;> decide
  have hbody : ∀ {ds : List (Line DefinitionLine)} {as : List (Line AssignmentLine)}
      {c : Terminal .endWord}, Line.Unbroken (Line.allTokens DefinitionLine.tokens ds ++
        (Line.allTokens AssignmentLine.tokens as ++ [c.1])) :=
    Line.unbroken_append DefinitionLine.unbroken DefinitionLine.exists_start
      fun t ht => (hsplit t ht).2
  simp only [tokens, Body.tokens, List.append_assoc] at h
  obtain ⟨rfl, hds⟩ := Line.eq_of_tokens_append_eq (fun a b hab => Subtype.ext (List.cons.inj hab).1)
    (fun a t ht => by simp [List.mem_singleton.mp ht, a.2]) hbody hbody h
  obtain ⟨rfl, has⟩ := Line.eq_of_allTokens_append_eq DefinitionLine.tokens_inj
    DefinitionLine.unbroken DefinitionLine.exists_start ds ds' (fun t ht => (hsplit t ht).1)
    (fun t ht => (hsplit t ht).1) (fun t ht => (hsplit t ht).2) (fun t ht => (hsplit t ht).2) hds
  obtain ⟨rfl, hclosing⟩ := Line.eq_of_allTokens_append_eq AssignmentLine.tokens_inj
    AssignmentLine.unbroken AssignmentLine.exists_start as as' (fun t ht => by rw [hend t ht]; rfl)
    (fun t ht => by rw [hend t ht]; rfl) (fun t ht => by rw [hend t ht]; decide)
    (fun t ht => by rw [hend t ht]; decide) has
  obtain rfl : closing = closing' := Subtype.ext (List.cons.inj hclosing).1
  rfl

end AssignLang
