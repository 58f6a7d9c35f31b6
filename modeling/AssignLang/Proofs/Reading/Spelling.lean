/-
# What is read from a text is spelt

The tokens of a text are lexemes of their kinds. So the text of every literal is a
numeral, whose value is a number without sign or infinity, the text of every sign is
an operator of its level, and the text of every name is one that no keyword has. The
two checks of a reading that look at the texts of tokens, whether a literal is a
numeral and whether a sign is an operator, never fail on the tokens of a text; what
is reported of them is only that a token cannot stand where it stands.

Key definitions: `Unsigned`, `BinaryOp.kind`, `Node.Spelt`, `Program.Spelt`.
Key theorems: `spelt_of_tokenize`, `isLexeme_of_parse`, `Expr.IsRead.spelt`,
`parse_of_tokenize`.
-/
import AssignLang.Compile
import AssignLang.Proofs.Lexing.Tokenize
import AssignLang.Proofs.Number.Bits
import AssignLang.Proofs.Reading.Refusals
import AssignLang.Proofs.Reading.Tokens

namespace AssignLang

/-! ### Numerals -/

/-- A number without sign, or infinity. -/
structure Unsigned (x : Float) : Prop where
  isNumber : x.isNaN = false
  notBelow : ¬ x < 0
  notNegZero : x ≠ -0

theorem Rank.unsigned_toFloat {k : ℕ} (hk : k ≤ top) : Unsigned (toFloat k) :=
  ⟨isNaN_toFloat hk, not_toFloat_lt_zero hk, toFloat_ne_neg_zero hk⟩

/-- The text of a numeral is read as the double of a rank. -/
theorem IsLexeme.exists_rank {text : String} {k : Kind} (h : IsLexeme text.toList k)
    (hk : k = .literalInt ∨ k = .literalReal) :
    ∃ rank ≤ Rank.top, Numeral.read text = .ok (Rank.toFloat rank) := by
  rcases hk with rfl | rfl
  · obtain ⟨rank, hrank, -, hread⟩ := h.read_whole
    exact ⟨rank, hrank, by rwa [String.ofList_toList] at hread⟩
  · obtain ⟨rank, hrank, hread⟩ := h.read_real
    exact ⟨rank, hrank, by rwa [String.ofList_toList] at hread⟩

/-- The value of a numeral that was read is the double of a rank. -/
theorem Literal.IsRead.exists_rank {l : Literal} {k : Kind} (h : l.IsRead k)
    (hlexeme : IsLexeme l.token.text.toList l.token.kind)
    (hk : k = .literalInt ∨ k = .literalReal) :
    ∃ rank ≤ Rank.top, l.value = Rank.toFloat rank := by
  obtain ⟨rank, hrank, hread⟩ := hlexeme.exists_rank (h.1 ▸ hk)
  rw [h.2] at hread
  exact ⟨rank, hrank, Except.ok.inj hread⟩

theorem Literal.IsRead.unsigned {l : Literal} {k : Kind} (h : l.IsRead k)
    (hlexeme : IsLexeme l.token.text.toList l.token.kind)
    (hk : k = .literalInt ∨ k = .literalReal) : Unsigned l.value := by
  obtain ⟨rank, hrank, hvalue⟩ := h.exists_rank hlexeme hk
  rw [hvalue]
  exact Rank.unsigned_toFloat hrank

/-! ### Signs and names -/

/-- The kind of the sign of an operator. -/
def BinaryOp.kind : BinaryOp → Kind
  | add => .additive
  | subtract => .additive
  | multiply => .multiplicative
  | divide => .multiplicative
  | power => .exponentiation

/-- A sign of a level is the symbol of an operator of its kind. -/
theorem IsLexeme.exists_operator {text : String} {k : Kind} (h : IsLexeme text.toList k)
    (hk : k.level?.isSome) : ∃ op : BinaryOp, text.toList = [op.symbol] ∧ k = op.kind := by
  generalize htext : text.toList = x at h
  cases h with
  | sign hs =>
    cases hs <;> try cases hk
    · exact ⟨.add, rfl, rfl⟩
    · exact ⟨.subtract, rfl, rfl⟩
    · exact ⟨.multiply, rfl, rfl⟩
    · exact ⟨.divide, rfl, rfl⟩
    · exact ⟨.power, rfl, rfl⟩
  | keyword hw => cases hw <;> cases hk
  | _ => cases hk

/-- The text of the token is a name, and no keyword. -/
def Token.NamesVariable (t : Token) : Prop :=
  isName t.text = true ∧ Kind.keyword? t.text = none

/-- A lexeme of a kind that no keyword has is no keyword. -/
theorem IsLexeme.keyword?_eq_none {text : String} {k : Kind} (h : IsLexeme text.toList k)
    (hk : ∀ x ∈ Kind.keywords, x.2 ≠ k) : Kind.keyword? text = none := by
  refine Option.eq_none_iff_forall_ne_some.mpr fun k' hk' => ?_
  obtain rfl := h.kind_eq (.keyword (isKeyword_iff.mpr hk'))
  exact hk _ (Kind.keyword?_eq_some_iff.mp hk') rfl

theorem Token.namesVariable {t : Token} (h : t.kind = .identifier)
    (hlexeme : IsLexeme t.text.toList t.kind) : t.NamesVariable := by
  rw [h] at hlexeme
  have hname := hlexeme.isName
  rw [String.ofList_toList] at hname
  exact ⟨hname, hlexeme.keyword?_eq_none (by decide)⟩

/-! ### Tokens -/

/-- **Every token of a text is spelt.** -/
theorem spelt_of_tokenize {source : String} {ts : List Token} (h : tokenize source = .ok ts)
    {t : Token} (ht : t ∈ ts) : t.Spelt := by
  by_cases hk : t.kind = .eof
  · exact Token.spelt_of_kind hk (by decide)
  · have hlexeme := isLexeme_of_tokenize h ht hk
    refine ⟨fun hliteral => ?_, fun hsign => ?_⟩
    · obtain ⟨rank, -, hread⟩ := hlexeme.exists_rank hliteral
      exact ⟨_, hread⟩
    · have hlevel : t.kind.level?.isSome := by
        rcases hsign with hsign | hsign | hsign <;> rw [hsign] <;> rfl
      obtain ⟨op, hop, -⟩ := hlexeme.exists_operator hlevel
      exact BinaryOp.isSome_ofSymbol?_iff.mp ⟨op, BinaryOp.ofSymbol?_eq_some_iff.mpr hop⟩

/-- The tokens that a program keeps of a text are lexemes. -/
theorem isLexeme_of_parse {source : String} {ts : List Token} {p : Program}
    (hts : tokenize source = .ok ts) (hp : parse ts = .ok p) {t : Token} (ht : t ∈ p.tokens) :
    IsLexeme t.text.toList t.kind := by
  obtain ⟨hmem, hvisible⟩ := mem_of_mem_tokens hp ht
  refine isLexeme_of_tokenize hts hmem ?_
  intro hk
  simp [Token.isVisible, hk] at hvisible

/-! ### Programs -/

/-- A node as a text gives it. -/
def Node.Spelt : Node → Prop
  | integer l => Unsigned l.value
  | real l => Unsigned l.value
  | name t => t.NamesVariable
  | negate t => t.text = "-"
  | binary op t => t.text.toList = [op.symbol] ∧ t.kind = op.kind

/-- A definition as a text gives it. -/
def Definition.Spelt : Definition → Prop
  | real _ names => ∀ t ∈ names, t.NamesVariable
  | integer _ literals => ∀ l ∈ literals, Unsigned l.value

/-- An assignment as a text gives it. -/
structure Assignment.Spelt (a : Assignment) : Prop where
  label : ∀ l ∈ a.label, Unsigned l.value
  target : a.target.NamesVariable
  nodes : ∀ n ∈ a.expr.postOrder, n.Spelt

/-- A program as a text gives it. -/
structure Program.Spelt (p : Program) : Prop where
  definitions : ∀ d ∈ p.definitions, d.Spelt
  assignments : ∀ a ∈ p.assignments, a.Spelt

theorem Expr.IsRead.spelt {e : Expr} (h : e.IsRead)
    (hlexeme : ∀ t ∈ e.tokens, IsLexeme t.text.toList t.kind) : ∀ n ∈ e.postOrder, n.Spelt := by
  induction e with
  | integer l =>
    have hl : Unsigned l.value :=
      Literal.IsRead.unsigned h (hlexeme _ List.mem_cons_self) (.inl rfl)
    exact List.forall_mem_singleton.mpr hl
  | real l =>
    have hl : Unsigned l.value :=
      Literal.IsRead.unsigned h (hlexeme _ List.mem_cons_self) (.inr rfl)
    exact List.forall_mem_singleton.mpr hl
  | name t =>
    have ht : t.NamesVariable := Token.namesVariable h (hlexeme t List.mem_cons_self)
    exact List.forall_mem_singleton.mpr ht
  | negate t e ih =>
    obtain ⟨-, hrest⟩ := List.forall_mem_cons.mp hlexeme
    have ht : t.text = "-" := h.1.2
    exact List.forall_mem_append.mpr ⟨ih h.2 hrest, List.forall_mem_singleton.mpr ht⟩
  | binary op t l r ihl ihr =>
    obtain ⟨⟨hkind, hop⟩, hl, hr⟩ := h
    obtain ⟨hleft, hsign, hright⟩ : (∀ u ∈ l.tokens, IsLexeme u.text.toList u.kind) ∧
        IsLexeme t.text.toList t.kind ∧ ∀ u ∈ r.tokens, IsLexeme u.text.toList u.kind := by
      simpa only [tokens, List.forall_mem_append, List.forall_mem_cons] using hlexeme
    have hsymbol := BinaryOp.ofSymbol?_eq_some_iff.mp hop
    obtain ⟨op', hop', hkind'⟩ := hsign.exists_operator hkind
    -- a text is the symbol of one operator only
    obtain rfl : op' = op := by
      have hboth := BinaryOp.ofSymbol?_eq_some_iff.mpr hop'
      rw [hop] at hboth
      exact (Option.some.inj hboth).symm
    have ht : t.text.toList = [op'.symbol] ∧ t.kind = op'.kind := ⟨hsymbol, hkind'⟩
    exact List.forall_mem_append.mpr ⟨List.forall_mem_append.mpr ⟨ihl hl hleft, ihr hr hright⟩,
      List.forall_mem_singleton.mpr ht⟩

theorem Definition.IsRead.spelt {d : Definition} (h : d.IsRead)
    (hlexeme : ∀ t ∈ d.tokens, IsLexeme t.text.toList t.kind) : d.Spelt := by
  cases d with
  | real keyword names =>
    obtain ⟨-, hrest⟩ := List.forall_mem_cons.mp hlexeme
    exact fun t ht => Token.namesVariable (h.2.2 t ht) (hrest t ht)
  | integer keyword literals =>
    obtain ⟨-, hrest⟩ := List.forall_mem_cons.mp hlexeme
    exact fun l hl => (h.2.2 l hl).unsigned (hrest _ (List.mem_map_of_mem hl)) (.inl rfl)

theorem Assignment.IsRead.spelt {a : Assignment} (h : a.IsRead)
    (hlexeme : ∀ t ∈ a.tokens, IsLexeme t.text.toList t.kind) : a.Spelt := by
  obtain ⟨hlabel, hrest⟩ := List.forall_mem_append.mp hlexeme
  obtain ⟨htarget, hexpr⟩ := List.forall_mem_cons.mp hrest
  refine ⟨fun l hl => ?_, Token.namesVariable h.target htarget, h.expr.spelt hexpr⟩
  have htoken : l.token ∈ (a.label.map Literal.token).toList :=
    Option.mem_toList.mpr (Option.mem_map_of_mem _ hl)
  exact (h.label l hl).unsigned (hlabel _ htoken) (.inl rfl)

theorem Program.spelt_of_parse {source : String} {ts : List Token} {p : Program}
    (hts : tokenize source = .ok ts) (hp : parse ts = .ok p) : p.Spelt := by
  have hread := isRead_of_parse hp
  obtain ⟨hdefinitions, hassignments⟩ :=
    List.forall_mem_append.mp fun t (ht : t ∈ p.tokens) => isLexeme_of_parse hts hp ht
  exact ⟨fun d hd => (hread.definitions d hd).spelt
      fun t ht => hdefinitions t (List.mem_flatMap_of_mem hd ht),
    fun a ha => (hread.assignments a ha).spelt
      fun t ht => hassignments t (List.mem_flatMap_of_mem ha ht)⟩

/-- Tokens of a text that are no program are reported for one of them. -/
theorem unexpectedToken_of_parse {source : String} {ts : List Token} {d : Diagnostic}
    (h : tokenize source = .ok ts) (hd : parse ts = .error d) :
    ∃ message, d.cause = .unexpectedToken message := by
  obtain ⟨t, ht, hrefusal⟩ := exists_refusal_of_parse hd
  have hspelt : t.Spelt := ht.elim (spelt_of_tokenize h)
    fun hk => Token.spelt_of_kind hk (by decide)
  obtain ⟨v, -, hcause⟩ := hrefusal.exists_violation hspelt
  exact ⟨v.message, hcause⟩

/-- **Of the tokens of a text only their places are reported**, and the program that is
read from them is spelt: its literals are numbers without sign or infinity, every sign
is the symbol of its operator and has the kind of it, and every name has the form of
one and is no keyword. -/
theorem parse_of_tokenize {source : String} {ts : List Token} (h : tokenize source = .ok ts) :
    (∀ d, parse ts = .error d →
      ∃ message, d.cause = .unexpectedToken message ∧ message ≠ "Unknown operator") ∧
    ∀ p, parse ts = .ok p → p.Spelt := by
  refine ⟨fun d hd => ?_, fun p hp => Program.spelt_of_parse h hp⟩
  obtain ⟨t, ht, hrefusal⟩ := exists_refusal_of_parse hd
  have hspelt : t.Spelt := ht.elim (spelt_of_tokenize h)
    fun hk => Token.spelt_of_kind hk (by decide)
  obtain ⟨v, hv, hcause⟩ := hrefusal.exists_violation hspelt
  exact ⟨v.message, hcause, Violation.message_ne_unknownOperator hv⟩

/-- A text that is a program, and one whose right side lacks its operand. -/
theorem parse_of_tokenize_sum :
    (∃ ts p, tokenize "begin\nx = -1.5 + y\nend" = .ok ts ∧ parse ts = .ok p ∧ p.Spelt) ∧
    ∃ ts d, tokenize "begin\nx =\nend" = .ok ts ∧ parse ts = .error d ∧
      ∃ message, d.cause = .unexpectedToken message ∧ message ≠ "Unknown operator" := by
  constructor
  · obtain ⟨ts, p, ⟨hts, hp⟩, -⟩ :=
      exists_of_any_readProgram "begin\nx = -1.5 + y\nend" (fun _ => true) (by decide +kernel)
    exact ⟨ts, p, hts, hp, (parse_of_tokenize hts).2 p hp⟩
  · have hrefused : (tokenize "begin\nx =\nend").toOption.any
        (fun ts => (parse ts).toOption.isNone) = true := by decide +kernel
    cases hts : tokenize "begin\nx =\nend" with
    | error d => rw [hts] at hrefused; cases hrefused
    | ok ts =>
      cases hd : parse ts with
      | error d => exact ⟨ts, d, rfl, hd, (parse_of_tokenize hts).1 d hd⟩
      | ok p =>
        have hread : (parse ts).toOption.isNone = true := by rwa [hts] at hrefused
        rw [hd] at hread
        cases hread

end AssignLang
