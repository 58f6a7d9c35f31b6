/-
# The text of a program derives from the grammar

The brackets that the text of an expression has make a primary of every operation,
so the tree is read off the text whatever its operators are: neither their levels
nor the order of a chain matter, and a minus sign takes just the operand in its
brackets. A statement's text is one line. So the text of a program is written
with the lexemes of a derivation that stands for a program of the same outline, if
its names are names, its signs are those of its operators and its numerals are
read back as they are written (`Program.Prints`).

Key definitions: `Literal.Prints`, `Expr.Prints`, `Program.Prints`.
Key theorems: `Expr.exists_phrase`, `Program.exists_derivation`.
-/
import AssignLang.Program.Text
import AssignLang.Proofs.Printing.Written
import AssignLang.Proofs.Running.Outline

namespace AssignLang

/-! ### What is read back as it is written -/

/-- The numeral written in a style is one of the kind, with the same value. -/
structure Literal.Prints (style : Style) (k : Kind) (l : Literal) : Prop where
  kind_eq : l.token.kind = k
  isLexeme : IsLexeme (style.write l.value).toList k
  read_eq : Numeral.read (style.write l.value) = .ok l.value

/-- The token is a name. -/
def Token.IsName (t : Token) : Prop := t.kind = .identifier ∧ IsLexeme t.text.toList .identifier

/-- The tokens of the expression are what its text shows. -/
def Expr.Prints : Expr → Prop
  | integer l => l.Prints .plain .literalInt
  | real l => l.Prints .pointed .literalReal
  | name t => t.IsName
  | negate t e => (t.kind = .additive ∧ t.text = "-") ∧ e.Prints
  | binary op t l r =>
    (t.kind.level?.isSome ∧ BinaryOp.ofSymbol? t.text = some op ∧
      IsLexeme t.text.toList t.kind) ∧ l.Prints ∧ r.Prints

/-- The tokens of the definition are what its text shows. -/
def Definition.Prints : Definition → Prop
  | real keyword names =>
    (keyword.kind = .realWord ∧ keyword.text = "real") ∧ names ≠ [] ∧ ∀ t ∈ names, t.IsName
  | integer keyword literals =>
    (keyword.kind = .integerWord ∧ keyword.text = "integer") ∧ literals ≠ [] ∧
      ∀ l ∈ literals, l.Prints .plain .literalInt

/-- The tokens of the assignment are what its text shows. -/
structure Assignment.Prints (a : Assignment) : Prop where
  label : ∀ l ∈ a.label, l.Prints .plain .literalInt
  target : a.target.IsName
  expr : a.expr.Prints

/-- The tokens of the program are what its text shows. -/
structure Program.Prints (p : Program) : Prop where
  definitions : ∀ d ∈ p.definitions, d.Prints
  assignments : ∀ a ∈ p.assignments, a.Prints

/-! ### Tokens -/

theorem Token.unplaced_unplaced (t : Token) : t.unplaced.unplaced = t.unplaced := rfl

theorem Token.lexeme_sample (k : Kind) (text : String) : (sample k text).lexeme = (k, text) := rfl

theorem Token.IsName.written {t : Token} (h : t.IsName) :
    Written t.text.toList [t.unplaced.lexeme] := by
  have hwritten := Written.lexeme h.2
  rw [String.ofList_toList, ← h.1] at hwritten
  exact hwritten

namespace Literal.Prints

variable {style : Style} {k : Kind} {l : Literal} (h : l.Prints style k)
include h

theorem written : Written (style.write l.value).toList [(k, style.write l.value)] := by
  have hwritten := Written.lexeme h.isLexeme
  rwa [String.ofList_toList] at hwritten

/-- What the written numeral is read as. -/
theorem read? : Literal.read? (.sample k (style.write l.value)) =
    some ⟨.sample k (style.write l.value), l.value⟩ :=
  Literal.read?_eq_some_iff.mpr ⟨rfl, h.read_eq⟩

theorem outline_eq :
    (⟨.sample k (style.write l.value), l.value⟩ : Literal).outline = l.outline := by
  rw [outline, outline, h.kind_eq]
  rfl

end Literal.Prints

/-! ### Expressions -/

/-- An operation between two primaries, whatever its level. -/
theorem Phrase.exists_operation {a b : Phrase .primary} {x y : Expr} (sign : Token) {op : BinaryOp}
    (hs : sign.kind.level?.isSome) (hop : BinaryOp.ofSymbol? sign.text = some op)
    (ha : a.expr? = some x) (hb : b.expr? = some y) :
    ∃ body : Phrase (.chain .sum), body.tokens = a.tokens ++ sign :: b.tokens ∧
      body.expr? = some (.binary op sign x y) := by
  obtain ⟨level, hlevel⟩ := Option.isSome_iff_exists.mp hs
  have hsign := Kind.level?_eq_some_iff.mp hlevel
  cases level with
  | power =>
    refine ⟨.single (.single (.more (.single a) sign hsign b)), rfl, ?_⟩
    simp [expr?, ha, hb, hop]
  | product =>
    refine ⟨.single (.more (.single (.single a)) sign hsign (.single b)), rfl, ?_⟩
    simp [expr?, ha, hb, hop]
  | sum =>
    refine ⟨.more (.single (.single (.single a))) sign hsign (.single (.single b)), rfl, ?_⟩
    simp [expr?, ha, hb, hop]

/-- A primary with a minus sign before it. -/
theorem Phrase.exists_negation {a : Phrase .primary} {x : Expr} (minus : Token)
    (hm : minus.kind = .additive ∧ minus.text = "-") (ha : a.expr? = some x) :
    ∃ body : Phrase (.chain .sum), body.tokens = minus :: a.tokens ∧
      body.expr? = some (.negate minus x) :=
  ⟨.negated minus hm (.single (.single a)), rfl, by simp [expr?, ha]⟩

/-- A sum in round brackets. -/
def Phrase.bracketed (body : Phrase (.chain .sum)) : Phrase .primary :=
  .group (.sample .parenLeft "(") (.inl rfl) body (.sample .parenRight ")") (.inl rfl)

/-- Round brackets around what is written. -/
theorem Written.bracketed {x : List Char} (body : Phrase (.chain .sum))
    (h : Written x (body.tokens.map Token.lexeme)) :
    Written ('(' :: x ++ [')']) (body.bracketed.tokens.map Token.lexeme) := by
  have hwritten := (h.append_sign .parenRight).sign_append .parenLeft
  simpa [Phrase.bracketed, Phrase.tokens, Token.lexeme_sample] using hwritten

/-- **The text of an expression is a primary** that stands for the same
expression. -/
theorem Expr.exists_phrase (e : Expr) (h : e.Prints) : ∃ (p : Phrase .primary) (e' : Expr),
    p.expr? = some e' ∧ e'.outline = e.outline ∧
      Written e.text.toList (p.tokens.map Token.lexeme) := by
  induction e with
  | integer l =>
    have hl : l.Prints .plain .literalInt := h
    have hread := congrArg (Option.map Expr.integer) hl.read?
    exact ⟨.leaf (.sample .literalInt l.text) rfl, _, hread,
      congrArg Expr.integer hl.outline_eq, hl.written⟩
  | real l =>
    have hl : l.Prints .pointed .literalReal := h
    have hread := congrArg (Option.map Expr.real) hl.read?
    exact ⟨.leaf (.sample .literalReal (Style.pointed.write l.value)) rfl, _, hread,
      congrArg Expr.real hl.outline_eq, hl.written⟩
  | name t =>
    have ht : t.IsName := h
    have hkind : t.unplaced.kind = .identifier := ht.1
    have hoperand : t.unplaced.kind.isOperand = true := by
      rw [hkind]
      rfl
    have hread : leaf? t.unplaced = some (.name t.unplaced) := by rw [leaf?, hkind]
    exact ⟨.leaf t.unplaced hoperand, .name t.unplaced, hread, rfl, ht.written⟩
  | negate t e ih =>
    obtain ⟨ht, he⟩ := h
    obtain ⟨p, e', hp, he', hwritten⟩ := ih he
    obtain ⟨body, hbody, hnegated⟩ := Phrase.exists_negation t.unplaced ht hp
    refine ⟨body.bracketed, .negate t.unplaced e', hnegated, ?_, ?_⟩
    · rw [outline, outline, he', Token.unplaced_unplaced]
    · have hlexeme : t.unplaced.lexeme = (.additive, String.ofList ['-']) := Prod.ext ht.1 ht.2
      have hminus := hwritten.sign_append .minus
      have hbracketed := Written.bracketed body (by simpa [hbody, hlexeme] using hminus)
      simpa [text] using hbracketed
  | binary op t l r ihl ihr =>
    obtain ⟨⟨ht, hop, hlexeme⟩, hl, hr⟩ := h
    obtain ⟨p, l', hp, hl', hleft⟩ := ihl hl
    obtain ⟨q, r', hq, hr', hright⟩ := ihr hr
    obtain ⟨body, hbody, hexpr⟩ := Phrase.exists_operation t.unplaced ht hop hp hq
    refine ⟨body.bracketed, .binary op t.unplaced l' r', hexpr, ?_, ?_⟩
    · rw [outline, outline, hl', hr', Token.unplaced_unplaced]
    · have hsign : Written [op.symbol] [t.unplaced.lexeme] := by
        have hwritten := Written.lexeme hlexeme
        rw [String.ofList_toList, BinaryOp.ofSymbol?_eq_some_iff.mp hop] at hwritten
        exact hwritten
      have hoperation := hleft.append_blank (hsign.append_blank hright)
      have hbracketed := Written.bracketed body (by simpa [hbody] using hoperation)
      simpa [text] using hbracketed

/-! ### Statements -/

theorem Written.keyword {text : String} {k : Kind} (h : IsKeyword text k) :
    Written text.toList [(k, text)] := by
  have hwritten := Written.lexeme (IsLexeme.keyword h)
  rwa [String.ofList_toList] at hwritten

theorem mapM_map_eq_some {α β γ : Type} {f : α → Option β} {g : γ → α} {h : γ → β} :
    ∀ {cs : List γ}, (∀ c ∈ cs, f (g c) = some (h c)) → (cs.map g).mapM f = some (cs.map h)
  | [], _ => rfl
  | c :: cs, hall => by
    obtain ⟨hc, hcs⟩ := List.forall_mem_cons.mp hall
    exact mapM_cons_eq_some_iff.mpr ⟨_, _, hc, mapM_map_eq_some hcs, rfl⟩

/-- The text of a definition is one. -/
theorem Definition.exists_line {d : Definition} (h : d.Prints) :
    ∃ (l : DefinitionLine) (d' : Definition), l.definition? = some d' ∧ d'.outline = d.outline ∧
      Written d.text.toList (l.tokens.map Token.lexeme) := by
  cases d with
  | real keyword names =>
    obtain ⟨⟨hkind, htext⟩, hne, hnames⟩ := h
    have hkey : keyword.unplaced = .sample .realWord "real" := by rw [Token.unplaced, hkind, htext]
    have hitems : ∀ t ∈ names.map Token.unplaced, Kind.realWord.listed? = some t.kind := by
      intro t ht
      obtain ⟨u, hu, rfl⟩ := List.mem_map.mp ht
      exact congrArg some (hnames u hu).1.symm
    refine ⟨⟨.sample .realWord "real", names.map Token.unplaced, by simpa using hne, hitems⟩,
      .real (.sample .realWord "real") (names.map Token.unplaced), rfl, ?_, ?_⟩
    · rw [outline, outline, List.map_map, hkey]
      rfl
    · have hlist := Written.words hne fun t ht => (hnames t ht).written
      have hline := (Written.keyword .realWord).append_blank hlist
      simpa [text, DefinitionLine.tokens, Token.lexeme_sample, Function.comp_def] using hline
  | integer keyword literals =>
    obtain ⟨⟨hkind, htext⟩, hne, hliterals⟩ := h
    have hkey : keyword.unplaced = .sample .integerWord "integer" := by
      rw [Token.unplaced, hkind, htext]
    have hitems : ∀ t ∈ literals.map fun l => Token.sample .literalInt l.text,
        Kind.integerWord.listed? = some t.kind := by
      intro t ht
      obtain ⟨l, -, rfl⟩ := List.mem_map.mp ht
      rfl
    have hread := mapM_map_eq_some fun l hl => (hliterals l hl).read?
    refine ⟨⟨.sample .integerWord "integer", _, by simpa using hne, hitems⟩, _,
      congrArg (Option.map (Definition.integer (.sample .integerWord "integer"))) hread, ?_, ?_⟩
    · rw [outline, outline, List.map_map, hkey]
      refine congrArg (Definition.integer _) ?_
      exact List.map_congr_left fun l hl => (hliterals l hl).outline_eq
    · have hlist := Written.words hne fun l hl => (hliterals l hl).written
      have hline := (Written.keyword .integerWord).append_blank hlist
      simpa [text, Literal.text, DefinitionLine.tokens, Token.lexeme_sample,
        Function.comp_def] using hline

/-- A target, an equals sign and the text of an expression. -/
theorem Expr.exists_sum {target : Token} {e : Expr} (ht : target.IsName) (he : e.Prints) :
    ∃ (p : Phrase (.chain .sum)) (e' : Expr), p.expr? = some e' ∧ e'.outline = e.outline ∧
      Written (target.text ++ " = " ++ e.text).toList
        (target.unplaced.lexeme :: (.assign, "=") :: p.tokens.map Token.lexeme) := by
  obtain ⟨p, e', hp, he', hexpr⟩ := e.exists_phrase he
  have hequals : Written ['='] [(.assign, "=")] := .lexeme (.sign .assign)
  have hbody := ht.written.append_blank (hequals.append_blank hexpr)
  refine ⟨.single (.single (.single p)), e', hp, he', ?_⟩
  simpa [Phrase.tokens] using hbody

/-- The text of an assignment is one. -/
theorem Assignment.exists_line {a : Assignment} (h : a.Prints) :
    ∃ (l : AssignmentLine) (a' : Assignment), l.assignment? = some a' ∧ a'.outline = a.outline ∧
      Written a.text.toList (l.tokens.map Token.lexeme) := by
  obtain ⟨label, target, e⟩ := a
  obtain ⟨p, e', hp, he', hbody⟩ := Expr.exists_sum h.target h.expr
  cases label with
  | none =>
    refine ⟨⟨none, ⟨target.unplaced, h.target.1⟩, ⟨.sample .assign "=", rfl⟩, p⟩,
      ⟨none, target.unplaced, e'⟩, ?_, ?_, ?_⟩
    · simp [AssignmentLine.assignment?, AssignmentLine.label?, hp]
    · rw [outline, outline, he']
      rfl
    · simpa [text, AssignmentLine.tokens, AssignmentLine.labelTokens, Token.lexeme_sample] using hbody
  | some l =>
    have hl : l.Prints .plain .literalInt := h.label l rfl
    have hread : Literal.read? (.sample .literalInt l.text) =
        some ⟨.sample .literalInt l.text, l.value⟩ := hl.read?
    have houtline : (⟨.sample .literalInt l.text, l.value⟩ : Literal).outline = l.outline :=
      hl.outline_eq
    have hline := (hl.written.append_sign .colon).append_blank hbody
    refine ⟨⟨some (⟨.sample .literalInt l.text, rfl⟩, ⟨.sample .colon ":", rfl⟩),
      ⟨target.unplaced, h.target.1⟩, ⟨.sample .assign "=", rfl⟩, p⟩,
      ⟨some ⟨.sample .literalInt l.text, l.value⟩, target.unplaced, e'⟩, ?_, ?_, ?_⟩
    · simp [AssignmentLine.assignment?, AssignmentLine.label?, hp, hread]
    · rw [outline, outline, he', Option.map_some, houtline]
      rfl
    · simpa [text, Literal.text, AssignmentLine.tokens, AssignmentLine.labelTokens,
        Token.lexeme_sample] using hline

/-! ### Programs -/

/-- The line feed that ends a line. -/
def Line.ended {α : Type} (content : α) : Line α :=
  ⟨content, [.sample .newline "\n"], by simp, by simp [Token.sample]⟩

/-- Texts that are lines each, and what is written after them. -/
theorem exists_lines {α β : Type} {tokens : α → List Token} {read : α → Option β}
    {outline : β → β} {text : β → String} {y : List Char} {ms : List (Kind × String)} :
    ∀ {bs : List β}, (∀ b ∈ bs, ∃ a b', read a = some b' ∧ outline b' = outline b ∧
      Written (text b).toList ((tokens a).map Token.lexeme)) → Written y ms →
    ∃ (ls : List (Line α)) (bs' : List β), (ls.mapM fun l => read l.content) = some bs' ∧
      bs'.map outline = bs.map outline ∧
      Written (bs.flatMap (fun b => (text b).toList ++ ['\n']) ++ y)
        ((Line.allTokens tokens ls).map Token.lexeme ++ ms)
  | [], _, hy => ⟨[], [], rfl, rfl, hy⟩
  | b :: bs, h, hy => by
    obtain ⟨hb, hbs⟩ := List.forall_mem_cons.mp h
    obtain ⟨a, b', ha, hb', hwritten⟩ := hb
    obtain ⟨ls, bs', hls, hbs', hrest⟩ := exists_lines hbs hy
    refine ⟨.ended a :: ls, b' :: bs', mapM_cons_eq_some_iff.mpr ⟨b', bs', ha, hls, rfl⟩, ?_, ?_⟩
    · rw [List.map_cons, List.map_cons, hb', hbs']
    · have hlines := hwritten.line_append hrest
      simpa [Line.allTokens, Line.tokens, Line.ended, Token.lexeme_sample] using hlines

/-- The lines of a text, the last of which has no line feed. -/
theorem intercalate_concat (g e : List Char) : ∀ ls : List (List Char),
    g.intercalate (ls ++ [e]) = ls.flatMap (fun l => l ++ g) ++ e
  | [] => by simp
  | l :: ls => by
    have hne : ls ++ [e] ≠ [] := by simp
    rw [List.cons_append, List.intercalate_cons_of_ne_nil hne, intercalate_concat g e ls]
    simp

/-- **The text of a program derives from the grammar**, and the derivation stands for
a program of the same outline. -/
theorem Program.exists_derivation {p : Program} (h : p.Prints) :
    ∃ (d : Derivation) (p' : Program), d.program? = some p' ∧ p'.outline = p.outline ∧
      Written p.text.toList (d.tokens.map Token.lexeme) := by
  have hend := Written.keyword .endWord
  obtain ⟨als, as, has, houtline, hassignments⟩ := exists_lines
    (fun a ha => Assignment.exists_line (h.assignments a ha)) hend
  obtain ⟨dls, ds, hds, houtline', hdefinitions⟩ := exists_lines
    (fun d hd => Definition.exists_line (h.definitions d hd)) hassignments
  have hwritten := (Written.keyword .beginWord).line_append hdefinitions
  refine ⟨⟨⟨.ended ⟨.sample .beginWord "begin", rfl⟩, dls, als⟩, ⟨.sample .endWord "end", rfl⟩⟩,
    ⟨ds, as⟩, ?_, ?_, ?_⟩
  · have hds' : DefinitionLine.definitions? dls = some ds := hds
    have has' : AssignmentLine.assignments? als = some as := has
    simp [Derivation.program?, Body.program?, hds', has']
  · rw [outline, outline, houtline, houtline']
  · have htext : p.text.toList = "begin".toList ++ ['\n'] ++
        (p.definitions.flatMap (fun d => d.text.toList ++ ['\n']) ++
          (p.assignments.flatMap (fun a => a.text.toList ++ ['\n']) ++ "end".toList)) := by
      rw [text, lines, String.toList_intercalate, List.map_append, List.map_singleton,
        intercalate_concat]
      simp [List.flatMap_map]
    rw [htext]
    simpa [Derivation.tokens, Body.tokens, Line.tokens, Line.ended, Token.lexeme_sample] using hwritten

end AssignLang
