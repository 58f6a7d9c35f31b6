/-
# One statement a line

No part of a program, be it `begin`, a definition, an assignment or `end`, has a line
feed among its tokens, and one stands between any two of them. So all tokens of a part
are on one line of the text, those of the next part are on a later one, and of the
tokens that can be seen each belongs to one part.

What a token says of its line has 32 bits. Every part stands on the one line that its
tokens say; that the lines go up is said of the lines of the text, and of what the tokens
say as long as 32 bits count them.

Key definitions: `Derivation.parts`, `Ascending`, `LineByLine`.
Key theorems: `LinesFrom.ascending`, `Derivation.parts_kept`, `one_statement_per_line`.
-/
import AssignLang.Proofs.Lexing.Lines
import AssignLang.Proofs.Reading.Tokens
import Mathlib.Logic.ExistsUnique

namespace AssignLang

/-! ### The parts of a program -/

/-- The tokens of `begin`, of each definition, of each assignment and of `end`, in this
order and without the line feeds between them. -/
def Derivation.parts (d : Derivation) : List (List Token) :=
  [d.body.opening.content.1] :: d.body.definitions.map (fun l => l.content.tokens) ++
    d.body.assignments.map (fun l => l.content.tokens) ++ [[d.closing.1]]

/-- The line with another content. -/
def Line.map {α β : Type} (f : α → β) (l : Line α) : Line β :=
  ⟨f l.content, l.breaks, l.breaks_ne_nil, l.breaks_kind⟩

/-- The lines up to `end`, each with its tokens. -/
def Body.allLines (b : Body) : List (Line (List Token)) :=
  b.opening.map (fun t => [t.1]) :: b.definitions.map (Line.map DefinitionLine.tokens) ++
    b.assignments.map (Line.map AssignmentLine.tokens)

theorem Line.allTokens_map {α : Type} (f : α → List Token) (ls : List (Line α)) :
    allTokens id (ls.map (map f)) = allTokens f ls := by
  rw [allTokens, allTokens, List.flatMap_map]
  rfl

theorem Body.allTokens_allLines (b : Body) : Line.allTokens id b.allLines = b.tokens := by
  have hds := Line.allTokens_map DefinitionLine.tokens b.definitions
  have has := Line.allTokens_map AssignmentLine.tokens b.assignments
  rw [tokens, ← hds, ← has]
  simp [allLines, Line.allTokens, Line.tokens, Line.map]

theorem Derivation.parts_eq (d : Derivation) :
    d.parts = d.body.allLines.map Line.content ++ [[d.closing.1]] := by
  simp [parts, Body.allLines, Line.map, Function.comp_def]

/-- No line feed stands within a line. -/
theorem Body.unbroken (b : Body) : ∀ l ∈ b.allLines, ∀ t ∈ l.content, t.kind ≠ .newline := by
  have hopening : ∀ t ∈ [b.opening.content.1], t.kind ≠ .newline := by simp [b.opening.content.2]
  simp only [allLines, List.forall_mem_append, List.forall_mem_cons, List.forall_mem_map]
  exact ⟨⟨hopening, fun l _ => l.content.unbroken⟩, fun l _ => l.content.unbroken⟩

/-- **The parts are those of the program**: of what it keeps, `begin` and `end` have
nothing, and the parts between them have its definitions and then its assignments. -/
theorem Derivation.parts_kept {d : Derivation} {p : Program} (h : d.program? = some p) :
    d.parts.map kept =
      [] :: p.definitions.map Definition.tokens ++ p.assignments.map Assignment.tokens ++ [[]] := by
  obtain ⟨ds, as⟩ := p
  obtain ⟨hds, has⟩ := Body.program?_eq_some_iff.mp h
  have hopening : kept [d.body.opening.content.1] = [] :=
    kept_cons_of_not_isKept (by rw [d.body.opening.content.2]; rfl) []
  have hclosing : kept [d.closing.1] = [] :=
    kept_cons_of_not_isKept (by rw [d.closing.2]; rfl) []
  have hdefinitions := map_of_mapM (g := Definition.tokens)
    (fun l x hx => (DefinitionLine.definition_kept hx).1) hds
  have hassignments := map_of_mapM (g := Assignment.tokens)
    (fun l x hx => (AssignmentLine.assignment_kept hx).1) has
  rw [hdefinitions, hassignments]
  simp [parts, hopening, hclosing, Function.comp_def]

/-! ### Parts on lines that go up -/

/-- The tokens of a part are on one line, and those of a later part are on a later
one. -/
structure Ascending {β : Type} [LT β] (line : Token → β) (parts : List (List Token)) : Prop where
  same : ∀ g ∈ parts, ∀ t ∈ g, ∀ u ∈ g, line t = line u
  later : parts.Pairwise fun g g' => ∀ t ∈ g, ∀ u ∈ g', line t < line u

section
variable {line : Token → Nat} {parts : List (List Token)} {n : Nat}

theorem Ascending.cons {g : List Token} (hg : ∀ t ∈ g, line t = n)
    (hlater : ∀ g' ∈ parts, ∀ t ∈ g', n < line t) (h : Ascending line parts) :
    Ascending line (g :: parts) where
  same := by
    refine List.forall_mem_cons.mpr ⟨fun t ht u hu => ?_, h.same⟩
    rw [hg t ht, hg u hu]
  later := by
    refine List.pairwise_cons.mpr ⟨fun g' hg' t ht u hu => ?_, h.later⟩
    rw [hg t ht]
    exact hlater g' hg' u hu

/-- Every token stands in one part. -/
theorem Ascending.existsUnique (h : Ascending line parts) {t : Token} (ht : t ∈ parts.flatten) :
    ∃! i : Nat, ∃ g, parts[i]? = some g ∧ t ∈ g := by
  have hnot : ∀ {i j : Nat} {g g' : List Token}, parts[i]? = some g → parts[j]? = some g' →
      t ∈ g → t ∈ g' → ¬ i < j := by
    intro i j g g' hi hj hg hg' hlt
    obtain ⟨hilen, rfl⟩ := List.getElem?_eq_some_iff.mp hi
    obtain ⟨hjlen, rfl⟩ := List.getElem?_eq_some_iff.mp hj
    exact Nat.lt_irrefl _ (List.pairwise_iff_getElem.mp h.later i j hilen hjlen hlt t hg t hg')
  obtain ⟨g, hmem, hg⟩ := List.mem_flatten.mp ht
  obtain ⟨i, hi⟩ := List.getElem?_of_mem hmem
  refine ⟨i, ⟨g, hi, hg⟩, ?_⟩
  rintro j ⟨g', hj, hg'⟩
  exact Nat.le_antisymm (Nat.not_lt.mp (hnot hi hj hg hg')) (Nat.not_lt.mp (hnot hj hi hg' hg))

/-- **Lines that line feeds end are on lines that go up.** The induction is on the lines,
and each of them leaves a line that is one further down at least. -/
theorem LinesFrom.ascending : ∀ {ls : List (Line (List Token))} {last : List Token} {n : Nat},
    LinesFrom line n (Line.allTokens id ls ++ last) →
    (∀ l ∈ ls, ∀ t ∈ l.content, t.kind ≠ .newline) → (∀ t ∈ last, t.kind ≠ .newline) →
      (∀ g ∈ ls.map Line.content ++ [last], ∀ t ∈ g, n ≤ line t) ∧
        Ascending line (ls.map Line.content ++ [last])
  | [], last, n, h, _, hlast => by
    have hlines : LinesFrom line n last := h
    have hsame := hlines.eq_of_unbroken hlast
    refine ⟨?_, Ascending.cons hsame (by simp) ⟨by simp, .nil⟩⟩
    simpa using fun t ht => Nat.le_of_eq (hsame t ht).symm
  | l :: ls, last, n, h, hls, hlast => by
    obtain ⟨hl, hls⟩ := List.forall_mem_cons.mp hls
    have hsplit : Line.allTokens id (l :: ls) ++ last =
        l.content ++ (l.breaks ++ (Line.allTokens id ls ++ last)) := by
      simp [Line.allTokens, Line.tokens]
    rw [hsplit, linesFrom_append, linesFrom_append, breakCount_eq_zero hl, Nat.add_zero,
      breakCount_eq_length l.breaks_kind] at h
    obtain ⟨hcontent, -, hrest⟩ := h
    have hsame := hcontent.eq_of_unbroken hl
    obtain ⟨hle, hascending⟩ := hrest.ascending hls hlast
    have hpos := List.length_pos_iff.mpr l.breaks_ne_nil
    have hlater : ∀ g ∈ ls.map Line.content ++ [last], ∀ t ∈ g, n < line t := by
      intro g hg t ht
      have := hle g hg t ht
      omega
    refine ⟨?_, Ascending.cons hsame hlater hascending⟩
    rw [List.map_cons, List.cons_append, List.forall_mem_cons]
    exact ⟨fun t ht => Nat.le_of_eq (hsame t ht).symm,
      fun g hg t ht => Nat.le_of_lt (hlater g hg t ht)⟩

end

/-! ### The tokens that can be seen -/

/-- Of lines all can be seen but the line feeds. -/
theorem Line.filter_isVisible : ∀ {ls : List (Line (List Token))},
    (∀ l ∈ ls, ∀ t ∈ l.content, t.isVisible = true) →
      (allTokens id ls).filter Token.isVisible = (ls.map Line.content).flatten
  | [], _ => rfl
  | l :: ls, h => by
    obtain ⟨hl, hls⟩ := List.forall_mem_cons.mp h
    have hbreaks : l.breaks.filter Token.isVisible = [] := by
      refine List.filter_eq_nil_iff.mpr fun t ht => ?_
      simp [Token.isVisible, l.breaks_kind t ht]
    have hsplit : allTokens id (l :: ls) = l.content ++ l.breaks ++ allTokens id ls := rfl
    rw [hsplit, List.filter_append, List.filter_append, List.filter_eq_self.mpr hl, hbreaks,
      filter_isVisible hls, List.append_nil]
    rfl

/-- The parts hold all tokens that can be seen. -/
theorem Derivation.filter_isVisible (d : Derivation) (h : ∀ t ∈ d.tokens, t.kind ≠ .eof) :
    d.tokens.filter Token.isVisible = d.parts.flatten := by
  have hlines : ∀ l ∈ d.body.allLines, ∀ t ∈ l.content, t.isVisible = true := by
    intro l hl t ht
    have hmem : t ∈ d.tokens := by
      rw [tokens, ← d.body.allTokens_allLines]
      exact List.mem_append_left _ (List.mem_flatMap.mpr ⟨l, hl, List.mem_append_left _ ht⟩)
    simp [Token.isVisible, d.body.unbroken l hl t ht, h t hmem]
  have hclosing : [d.closing.1].filter Token.isVisible = [d.closing.1] := by
    simp [Token.isVisible, d.closing.2]
  rw [tokens, ← d.body.allTokens_allLines, List.filter_append, Line.filter_isVisible hlines, hclosing,
    parts_eq, List.flatten_append, List.flatten_singleton]

/-! ### The lines of a program -/

/-- The parts of the program `p`, which the derivation `d` of the tokens `ts` gives, are
on lines of their own. -/
structure LineByLine (source : String) (ts : List Token) (p : Program) (d : Derivation) :
    Prop where
  tokens_eq : d.tokens = beforeEnd ts
  program?_eq : d.program? = some p
  /-- Between `begin` and `end` are the definitions and then the assignments of the
  program, in their order. -/
  kept_eq : d.parts.map kept =
    [] :: p.definitions.map Definition.tokens ++ p.assignments.map Assignment.tokens ++ [[]]
  /-- A token says the line of the text it begins on. -/
  line_eq : ∀ t ∈ ts, t.start.line = Int32.ofNat (t.lineIn source)
  /-- The tokens of a part say the same line. -/
  same : ∀ g ∈ d.parts, ∀ t ∈ g, ∀ u ∈ g, t.start.line = u.start.line
  /-- A later part is on a later line of the text. -/
  ascending : Ascending (Token.lineIn source) d.parts
  /-- And its tokens say so, unless the text has more lines than 32 bits count. -/
  counted : lineOf source.toList < 2147483648 → Ascending (fun t => t.start.line) d.parts
  /-- The tokens of the parts are those that can be seen, in their order. -/
  visible : ts.filter Token.isVisible = d.parts.flatten
  /-- Each of these belongs to one part. -/
  existsUnique : ∀ t ∈ ts, t.kind ≠ .newline → t.kind ≠ .eof →
    ∃! i : Nat, ∃ g, d.parts[i]? = some g ∧ t ∈ g

section
variable {source : String} {parts : List (List Token)}
  (hline : ∀ g ∈ parts, ∀ t ∈ g, t.start.line = Int32.ofNat (t.lineIn source))
  (h : Ascending (Token.lineIn source) parts)
include hline h

/-- Tokens on the same line say the same line. -/
theorem Ascending.line_eq_line : ∀ g ∈ parts, ∀ t ∈ g, ∀ u ∈ g, t.start.line = u.start.line := by
  intro g hg t ht u hu
  rw [hline g hg t ht, hline g hg u hu, h.same g hg t ht u hu]

/-- Lines that go up in a text go up as the tokens say them, if 32 bits count them. -/
theorem Ascending.counted (hcount : lineOf source.toList < 2147483648) :
    Ascending (fun t => t.start.line) parts := by
  have hvalue : ∀ g ∈ parts, ∀ t ∈ g, t.start.line.toInt = t.lineIn source := by
    intro g hg t ht
    rw [hline g hg t ht]
    exact Int32.toInt_ofNat_of_lt (Nat.lt_of_le_of_lt (t.lineIn_le source) hcount)
  refine ⟨Ascending.line_eq_line hline h, h.later.imp_of_mem fun hg hg' hlt t ht u hu => ?_⟩
  rw [Int32.lt_iff_toInt_lt, hvalue _ hg t ht, hvalue _ hg' u hu]
  exact Int.ofNat_lt.mpr (hlt t ht u hu)

end

/-- **One statement a line.** The tokens of a text that is a program derive from the
grammar, and all that can be seen of them are `begin`, the definitions and the
assignments of the program, and `end`: each of them on a line of its own, below those
before it. -/
theorem one_statement_per_line {source : String} {ts : List Token} {p : Program}
    (hts : tokenize source = .ok ts) (hp : parse ts = .ok p) :
    ∃ d : Derivation, LineByLine source ts p d := by
  obtain ⟨d, hd, hdp⟩ := parse_eq_ok_iff_derivation.mp hp
  obtain ⟨front, hfront, rfl⟩ := exists_front_of_tokenize hts
  have htokens : d.tokens = front := by
    rw [hd, beforeEnd_append hfront]
    simp [beforeEnd, Token.atEnd]
  subst htokens
  have hlines := (linesFrom_append.mp (linesFrom_of_tokenize hts)).1
  rw [Derivation.tokens, ← d.body.allTokens_allLines] at hlines
  obtain ⟨-, hascending⟩ := hlines.ascending d.body.unbroken (by simp [d.closing.2])
  rw [← d.parts_eq] at hascending
  have hvisible : List.filter Token.isVisible (d.tokens ++ [Token.atEnd source.toList.length
      (positionAt source.toList source.toList.length)]) = d.parts.flatten := by
    rw [List.filter_append, d.filter_isVisible hfront]
    simp [Token.isVisible, Token.atEnd]
  have hline : ∀ g ∈ d.parts, ∀ t ∈ g, t.start.line = Int32.ofNat (t.lineIn source) := by
    intro g hg t ht
    have hmem := List.mem_flatten.mpr ⟨g, hg, ht⟩
    rw [← hvisible] at hmem
    exact line_of_tokenize hts (List.mem_filter.mp hmem).1
  refine ⟨d, hd, hdp, Derivation.parts_kept hdp, fun t ht => line_of_tokenize hts ht,
    Ascending.line_eq_line hline hascending, hascending, Ascending.counted hline hascending,
    hvisible, fun t ht hbreak hend => hascending.existsUnique ?_⟩
  rw [← hvisible]
  exact List.mem_filter.mpr ⟨ht, by simp [Token.isVisible, hbreak, hend]⟩

/-- A definition, a label, brackets of both sorts and blank lines. -/
theorem one_statement_per_line_blank :
    let source := "begin\n\nreal a b\n1 : x = ([2] + a) ^ 2\n\n\ny = x\nend"
    ∃ ts p, (tokenize source = .ok ts ∧ parse ts = .ok p) ∧ ∃ d, LineByLine source ts p d := by
  intro source
  obtain ⟨ts, p, hp, -⟩ := exists_of_any_readProgram source (fun _ => true) (by decide +kernel)
  exact ⟨ts, p, hp, one_statement_per_line hp.1 hp.2⟩

end AssignLang
