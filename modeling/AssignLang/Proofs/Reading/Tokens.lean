/-
# The tokens a program keeps

Of the tokens it is read from, a program keeps the keywords of its definitions,
its numerals, its names and its signs, in the order in which they stand; `begin`
and `end`, equals signs, colons, brackets and line feeds leave nothing. What is
kept is what it looks like: a numeral has the value of its text, and a sign is
the operator that its text says (`Program.IsRead`).

Key definitions: `Expr.tokens`, `Program.tokens`, `Kind.isKept`, `kept`,
`Expr.IsRead`, `Program.IsRead`, `Kind.leftOut`.
Key theorems: `tokens_of_parse`, `isRead_of_parse`, `tokens_in_order`.
-/
import AssignLang.Compile
import AssignLang.Proofs.Reading.Language
import AssignLang.Proofs.Runs

namespace AssignLang

/-! ### The tokens in order -/

/-- The tokens of an expression from left to right. -/
def Expr.tokens : Expr → List Token
  | integer l => [l.token]
  | real l => [l.token]
  | name t => [t]
  | negate t e => t :: e.tokens
  | binary _ t l r => l.tokens ++ t :: r.tokens

/-- The tokens of a definition from left to right. -/
def Definition.tokens : Definition → List Token
  | real keyword names => keyword :: names
  | integer keyword literals => keyword :: literals.map Literal.token

/-- The tokens of an assignment from left to right. -/
def Assignment.tokens (a : Assignment) : List Token :=
  (a.label.map Literal.token).toList ++ a.target :: a.expr.tokens

/-- The tokens of a program from left to right. -/
def Program.tokens (p : Program) : List Token :=
  p.definitions.flatMap Definition.tokens ++ p.assignments.flatMap Assignment.tokens

/-- The kinds of tokens that a program keeps. -/
def Kind.isKept (k : Kind) : Bool := k.isOperand || k.level?.isSome || k.listed?.isSome

/-- The tokens that a program keeps. -/
def kept (w : List Token) : List Token := w.filter fun t => t.kind.isKept

theorem kept_append (v w : List Token) : kept (v ++ w) = kept v ++ kept w :=
  List.filter_append v w

theorem kept_cons_of_isKept {t : Token} (h : t.kind.isKept = true) (w : List Token) :
    kept (t :: w) = t :: kept w := List.filter_cons_of_pos h

theorem kept_cons_of_not_isKept {t : Token} (h : t.kind.isKept = false) (w : List Token) :
    kept (t :: w) = kept w := List.filter_cons_of_neg (by rw [h]; decide)

theorem kept_eq_self {w : List Token} (h : ∀ t ∈ w, t.kind.isKept = true) : kept w = w :=
  List.filter_eq_self.mpr h

theorem kept_eq_nil {w : List Token} (h : ∀ t ∈ w, t.kind.isKept = false) : kept w = [] :=
  List.filter_eq_nil_iff.mpr fun t ht => by rw [h t ht]; decide

/-! ### What is read off a derivation -/

/-- A literal read as a numeral of kind `k`. -/
def Literal.IsRead (k : Kind) (l : Literal) : Prop :=
  l.token.kind = k ∧ Numeral.read l.token.text = .ok l.value

/-- An expression as it is read: its numerals have the values of their texts, and
its operators are those of their signs. -/
def Expr.IsRead : Expr → Prop
  | integer l => l.IsRead .literalInt
  | real l => l.IsRead .literalReal
  | name t => t.kind = .identifier
  | negate t e => (t.kind = .additive ∧ t.text = "-") ∧ e.IsRead
  | binary op t l r =>
    (t.kind.level?.isSome ∧ BinaryOp.ofSymbol? t.text = some op) ∧ l.IsRead ∧ r.IsRead

/-- A definition as it is read. -/
def Definition.IsRead : Definition → Prop
  | real keyword names => keyword.kind = .realWord ∧ names ≠ [] ∧ ∀ t ∈ names, t.kind = .identifier
  | integer keyword literals =>
    keyword.kind = .integerWord ∧ literals ≠ [] ∧ ∀ l ∈ literals, l.IsRead .literalInt

/-- An assignment as it is read. -/
structure Assignment.IsRead (a : Assignment) : Prop where
  label : ∀ l ∈ a.label, l.IsRead .literalInt
  target : a.target.kind = .identifier
  expr : a.expr.IsRead

/-- A program as it is read. -/
structure Program.IsRead (p : Program) : Prop where
  definitions : ∀ d ∈ p.definitions, d.IsRead
  assignments : ∀ a ∈ p.assignments, a.IsRead

theorem Literal.IsRead.of_read? {t : Token} {l : Literal} {k : Kind} (hk : t.kind = k)
    (h : read? t = some l) : l.IsRead k ∧ l.token = t := by
  obtain ⟨rfl, hvalue⟩ := read?_eq_some_iff.mp h
  exact ⟨⟨hk, hvalue⟩, rfl⟩

/-- A token that is an expression by itself is kept. -/
theorem Expr.leaf_kept {t : Token} {e : Expr} (h : leaf? t = some e) :
    e.tokens = [t] ∧ e.IsRead := by
  unfold leaf? at h
  split at h
  · next hk =>
    obtain ⟨l, hl, rfl⟩ := Option.map_eq_some_iff.mp h
    obtain ⟨hread, rfl⟩ := Literal.IsRead.of_read? hk hl
    exact ⟨rfl, hread⟩
  · next hk =>
    obtain ⟨l, hl, rfl⟩ := Option.map_eq_some_iff.mp h
    obtain ⟨hread, rfl⟩ := Literal.IsRead.of_read? hk hl
    exact ⟨rfl, hread⟩
  · next hk =>
    cases h
    exact ⟨rfl, hk⟩
  · cases h

/-- An expression keeps its numerals, names and signs. -/
theorem Phrase.expr_kept : ∀ {s : Symbol} (p : Phrase s) {e : Expr}, p.expr? = some e →
    e.tokens = kept p.tokens ∧ e.IsRead
  | _, leaf t ht, e, h => by
    have hkept : t.kind.isKept = true := by simp [Kind.isKept, ht]
    obtain ⟨htokens, hread⟩ := Expr.leaf_kept h
    refine ⟨?_, hread⟩
    rw [htokens, tokens, kept_cons_of_isKept hkept]
    rfl
  | _, group opening ho body closing hc, e, h => by
    have hopen : opening.kind.isKept = false := by rcases ho with ho | ho <;> rw [ho] <;> rfl
    have hclose : closing.kind.isKept = false := by rcases hc with hc | hc <;> rw [hc] <;> rfl
    obtain ⟨htokens, hread⟩ := expr_kept body h
    refine ⟨?_, hread⟩
    rw [tokens, List.cons_append, kept_cons_of_not_isKept hopen, kept_append,
      kept_cons_of_not_isKept hclose, htokens]
    exact (List.append_nil _).symm
  | _, single first, e, h => expr_kept first h
  | _, negated minus hm first, e, h => by
    obtain ⟨a, ha, rfl⟩ := Option.map_eq_some_iff.mp h
    have hkept : minus.kind.isKept = true := by rw [hm.1]; rfl
    obtain ⟨htokens, hread⟩ := expr_kept first ha
    refine ⟨?_, hm, hread⟩
    rw [tokens, kept_cons_of_isKept hkept, ← htokens]
    rfl
  | _, more left sign hs right, e, h => by
    simp only [expr?, Option.bind_eq_some_iff, Option.map_eq_some_iff] at h
    obtain ⟨a, ha, op, hop, b, hb, rfl⟩ := h
    have hlevel := Kind.level?_eq_some_iff.mpr hs
    have hkept : sign.kind.isKept = true := by simp [Kind.isKept, hlevel]
    obtain ⟨hleft, hleftRead⟩ := expr_kept left ha
    obtain ⟨hright, hrightRead⟩ := expr_kept right hb
    refine ⟨?_, ⟨by simp [hlevel], hop⟩, hleftRead, hrightRead⟩
    rw [tokens, kept_append, kept_cons_of_isKept hkept, ← hleft, ← hright]
    rfl

theorem mapM_cons_eq_some_iff {α β : Type} {f : α → Option β} {a : α} {as : List α} {bs : List β} :
    (a :: as).mapM f = some bs ↔ ∃ b bs', f a = some b ∧ as.mapM f = some bs' ∧ bs = b :: bs' := by
  simp only [List.mapM_cons, Option.bind_eq_bind, Option.bind_eq_some_iff, Option.pure_def,
    Option.some.injEq]
  exact ⟨fun ⟨b, hb, bs', hbs', h⟩ => ⟨b, bs', hb, hbs', h.symm⟩,
    fun ⟨b, bs', hb, hbs', h⟩ => ⟨b, hb, bs', hbs', h.symm⟩⟩

/-- What is listed of the results of a partial function. -/
theorem flatMap_of_mapM {α β γ : Type} {f : α → Option β} {g : β → List γ} {h : α → List γ}
    (hf : ∀ a b, f a = some b → g b = h a) :
    ∀ {as : List α} {bs : List β}, as.mapM f = some bs → bs.flatMap g = as.flatMap h
  | [], bs, hbs => by
    obtain rfl : [] = bs := by simpa using hbs
    rfl
  | a :: as, bs, hbs => by
    obtain ⟨b, bs', hb, hbs', rfl⟩ := mapM_cons_eq_some_iff.mp hbs
    rw [List.flatMap_cons, List.flatMap_cons, hf a b hb, flatMap_of_mapM hf hbs']

theorem map_of_mapM {α β γ : Type} {f : α → Option β} {g : β → γ} {h : α → γ}
    (hf : ∀ a b, f a = some b → g b = h a) {as : List α} {bs : List β} (hbs : as.mapM f = some bs) :
    bs.map g = as.map h := by
  rw [List.map_eq_flatMap, List.map_eq_flatMap]
  exact flatMap_of_mapM (fun a b hab => congrArg List.singleton (hf a b hab)) hbs

theorem forall_mem_of_mapM {α β : Type} {f : α → Option β} {p : β → Prop}
    (hf : ∀ a b, f a = some b → p b) : ∀ {as : List α} {bs : List β}, as.mapM f = some bs →
      ∀ b ∈ bs, p b
  | [], bs, hbs => by
    obtain rfl : [] = bs := by simpa using hbs
    simp
  | a :: as, bs, hbs => by
    obtain ⟨b, bs', hb, hbs', rfl⟩ := mapM_cons_eq_some_iff.mp hbs
    exact List.forall_mem_cons.mpr ⟨hf a b hb, forall_mem_of_mapM hf hbs'⟩

theorem getElem?_of_mapM {α β : Type} {f : α → Option β} {b : β} :
    ∀ {as : List α} {bs : List β} {i : Nat}, as.mapM f = some bs → bs[i]? = some b →
      ∃ a, as[i]? = some a ∧ f a = some b
  | [], bs, i, hbs, hb => by
    obtain rfl : [] = bs := by simpa using hbs
    cases hb
  | a :: as, bs, i, hbs, hb => by
    obtain ⟨b', bs', hab, hrest, rfl⟩ := mapM_cons_eq_some_iff.mp hbs
    cases i with
    | zero =>
      obtain rfl : b' = b := Option.some.inj hb
      exact ⟨a, rfl, hab⟩
    | succ i => exact getElem?_of_mapM (i := i) hrest hb

theorem kept_breaks {α : Type} (l : Line α) : kept l.breaks = [] :=
  kept_eq_nil fun t ht => by rw [l.breaks_kind t ht]; rfl

/-- Lines keep what their contents keep. -/
theorem kept_allTokens {α : Type} (f : α → List Token) (ls : List (Line α)) :
    kept (Line.allTokens f ls) = ls.flatMap fun l => kept (f l.content) := by
  have hline : ∀ l : Line α, kept (l.tokens f) = kept (f l.content) := by
    intro l
    rw [Line.tokens, kept_append, kept_breaks, List.append_nil]
  induction ls with
  | nil => rfl
  | cons l ls ih =>
    show kept (l.tokens f ++ Line.allTokens f ls) = _
    rw [kept_append, hline, ih]
    rfl

theorem DefinitionLine.definition_kept {d : DefinitionLine} {x : Definition}
    (h : d.definition? = some x) : x.tokens = kept d.tokens ∧ x.IsRead := by
  unfold definition? at h
  rcases d.kinds with ⟨hk, hi⟩ | ⟨hk, hi⟩
  · rw [hk] at h
    cases h
    have hkept : ∀ t ∈ d.tokens, t.kind.isKept = true :=
      List.forall_mem_cons.mpr ⟨by rw [hk]; rfl, fun t ht => by rw [hi t ht]; rfl⟩
    exact ⟨(kept_eq_self hkept).symm, hk, d.items_ne_nil, hi⟩
  · rw [hk] at h
    obtain ⟨ls, hls, rfl⟩ := Option.map_eq_some_iff.mp h
    have hkept : ∀ t ∈ d.tokens, t.kind.isKept = true :=
      List.forall_mem_cons.mpr ⟨by rw [hk]; rfl, fun t ht => by rw [hi t ht]; rfl⟩
    have hread : ∀ a b, Literal.read? a = some b → [b.token] = [a] :=
      fun a b hab => by rw [(Literal.read?_eq_some_iff.mp hab).1]
    have htokens := flatMap_of_mapM hread hls
    rw [List.flatMap_singleton', ← List.map_eq_flatMap] at htokens
    refine ⟨?_, hk, ?_, ?_⟩
    · rw [kept_eq_self hkept, tokens, ← htokens]
      rfl
    · rintro rfl
      exact d.items_ne_nil (eq_nil_of_mapM_eq_nil hls)
    · intro l hl
      have hmem : l.token ∈ d.items := htokens ▸ List.mem_map_of_mem hl
      exact ⟨hi _ hmem, forall_mem_of_mapM (p := fun l => Numeral.read l.token.text = .ok l.value)
        (fun a b hab => by
          obtain ⟨rfl, hvalue⟩ := Literal.read?_eq_some_iff.mp hab
          exact hvalue) hls l hl⟩

theorem AssignmentLine.label_kept {a : AssignmentLine} {label : Option Literal}
    (h : a.label? = some label) :
    (label.map Literal.token).toList = kept a.labelTokens ∧ ∀ l ∈ label, l.IsRead .literalInt := by
  unfold label? at h
  unfold labelTokens
  cases hlabel : a.label with
  | none =>
    rw [hlabel] at h
    cases h
    exact ⟨rfl, by simp⟩
  | some p =>
    obtain ⟨t, colon⟩ := p
    rw [hlabel] at h
    obtain ⟨l, hl, rfl⟩ := Option.map_eq_some_iff.mp h
    obtain ⟨hread, htoken⟩ := Literal.IsRead.of_read? t.2 hl
    have hkept : t.1.kind.isKept = true := by rw [t.2]; rfl
    have hcolon : colon.1.kind.isKept = false := by rw [colon.2]; rfl
    refine ⟨?_, by simpa using hread⟩
    rw [kept_cons_of_isKept hkept, kept_cons_of_not_isKept hcolon, ← htoken]
    rfl

theorem AssignmentLine.assignment_kept {a : AssignmentLine} {x : Assignment}
    (h : a.assignment? = some x) : x.tokens = kept a.tokens ∧ x.IsRead := by
  simp only [assignment?, Option.bind_eq_some_iff, Option.map_eq_some_iff] at h
  obtain ⟨label, hlabel, e, he, rfl⟩ := h
  have htarget : a.target.1.kind.isKept = true := by rw [a.target.2]; rfl
  have hequals : a.equals.1.kind.isKept = false := by rw [a.equals.2]; rfl
  obtain ⟨hlabelTokens, hlabelRead⟩ := label_kept hlabel
  obtain ⟨hexprTokens, hexprRead⟩ := a.expr.expr_kept he
  refine ⟨?_, hlabelRead, a.target.2, hexprRead⟩
  rw [tokens, kept_append, kept_cons_of_isKept htarget, kept_cons_of_not_isKept hequals,
    ← hlabelTokens, ← hexprTokens]
  rfl

/-- A program keeps what its lines keep. -/
theorem Derivation.program_kept {d : Derivation} {p : Program} (h : d.program? = some p) :
    p.tokens = kept d.tokens ∧ p.IsRead := by
  simp only [program?, Body.program?, Option.bind_eq_some_iff, Option.map_eq_some_iff] at h
  obtain ⟨ds, hds, as, has, rfl⟩ := h
  refine ⟨?_, ?_, ?_⟩
  · have hopen : kept (d.body.opening.tokens fun t => [t.1]) = [] := by
      have hk : d.body.opening.content.1.kind.isKept = false := by
        rw [d.body.opening.content.2]
        rfl
      rw [Line.tokens, kept_append, kept_breaks, kept_cons_of_not_isKept hk]
      rfl
    have hclose : kept [d.closing.1] = [] := kept_eq_nil fun t ht => by
      rw [List.mem_singleton.mp ht, d.closing.2]
      rfl
    have hdefinitions := flatMap_of_mapM (g := Definition.tokens)
      (fun l x hx => (DefinitionLine.definition_kept hx).1) hds
    have hassignments := flatMap_of_mapM (g := Assignment.tokens)
      (fun l x hx => (AssignmentLine.assignment_kept hx).1) has
    rw [tokens, Body.tokens, kept_append, kept_append, kept_append, hopen, hclose, kept_allTokens,
      kept_allTokens, ← hdefinitions, ← hassignments, List.nil_append, List.append_nil]
    rfl
  · exact forall_mem_of_mapM (fun l x hx => (DefinitionLine.definition_kept hx).2) hds
  · exact forall_mem_of_mapM (fun l x hx => (AssignmentLine.assignment_kept hx).2) has

/-! ### What is read from tokens -/

/-- **A program keeps its tokens in their order.** -/
theorem tokens_of_parse {ts : List Token} {p : Program} (h : parse ts = .ok p) :
    p.tokens = kept (beforeEnd ts) := by
  obtain ⟨d, hd, hp⟩ := parse_eq_ok_iff_derivation.mp h
  rw [← hd]
  exact (d.program_kept hp).1

/-- **A program is what its tokens look like.** -/
theorem isRead_of_parse {ts : List Token} {p : Program} (h : parse ts = .ok p) : p.IsRead := by
  obtain ⟨d, -, hp⟩ := parse_eq_ok_iff_derivation.mp h
  exact (d.program_kept hp).2

/-- The tokens of a program are visible tokens among those it is read from. -/
theorem mem_of_mem_tokens {ts : List Token} {p : Program} (h : parse ts = .ok p) {t : Token}
    (ht : t ∈ p.tokens) : t ∈ ts ∧ t.isVisible = true := by
  rw [tokens_of_parse h, kept, List.mem_filter] at ht
  refine ⟨(List.takeWhile_prefix _).subset ht.1, ?_⟩
  have hkept := ht.2
  unfold Token.isVisible
  revert hkept
  cases t.kind <;> decide

/-! ### What is left out -/

/-- The kinds of tokens that leave nothing in a program. -/
def Kind.leftOut : List Kind :=
  [beginWord, endWord, newline, assign, colon, parenLeft, parenRight, bracketLeft, bracketRight]

/-- Every kind but the end of the text is either kept or left out. -/
theorem Kind.isKept_iff {k : Kind} (h : k ≠ .eof) : k.isKept = true ↔ k ∉ leftOut := by
  revert h
  cases k <;> decide

/-- **No token is lost, doubled, changed or moved.** The tokens of a program from left
to right are those that it is read from, up to the end of the text and but for the
kinds that leave nothing. -/
theorem tokens_in_order {ts : List Token} {p : Program} (h : parse ts = .ok p) :
    p.tokens = (ts.takeWhile fun t => t.kind != .eof).filter fun t => t.kind ∉ Kind.leftOut := by
  rw [tokens_of_parse h, kept, beforeEnd]
  apply List.filter_congr
  intro t ht
  have hk : t.kind ≠ .eof := by simpa using of_mem_takeWhile ht
  rw [Bool.eq_iff_iff, Kind.isKept_iff hk, decide_eq_true_iff]

/-- A definition, a label, a negated product, and brackets of two forms. -/
theorem tokens_in_order_negated : ∃ ts p,
    tokenize "begin\nreal x y\n7: x = -[y * 2) + y\nend" = .ok ts ∧ parse ts = .ok p ∧
      p.tokens.map Token.text = ["real", "x", "y", "7", "x", "-", "y", "*", "2", "+", "y"] ∧
      p.tokens =
        (ts.takeWhile fun t => t.kind != .eof).filter fun t => t.kind ∉ Kind.leftOut := by
  obtain ⟨ts, p, ⟨hts, hp⟩, htexts⟩ :=
    exists_of_any_readProgram "begin\nreal x y\n7: x = -[y * 2) + y\nend"
      (fun p => p.tokens.map Token.text ==
        ["real", "x", "y", "7", "x", "-", "y", "*", "2", "+", "y"]) (by decide +kernel)
  exact ⟨ts, p, hts, hp, by simpa using htexts, tokens_in_order hp⟩

end AssignLang
