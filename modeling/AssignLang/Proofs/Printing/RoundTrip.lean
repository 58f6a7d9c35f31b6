/-
# The text of a program is a program that means the same

A program that was read keeps names, signs and numerals of the source; so its text
shows what was read, if its numerals are written as they can be read: the whole
ones are finite, and the real ones are zero or lie in the range that is written by
position. Then the text is read as a program of the same outline, which has the
same text again and runs alike in every scope.

Key definitions: `Program.integers`, `Program.reals`, `Literal.InRange`.
Key theorems: `Program.prints_of_parse`, `Program.text_outline`,
`Program.Prints.readsBack`, `parse_text_outline`.
-/
import AssignLang.Proofs.Printing.Derived
import AssignLang.Proofs.Reading.Spelling

namespace AssignLang

/-! ### The numerals of a program -/

namespace Expr

/-- The whole numerals of an expression. -/
def integers : Expr → List Literal
  | integer l => [l]
  | real _ => []
  | name _ => []
  | negate _ e => e.integers
  | binary _ _ l r => l.integers ++ r.integers

/-- The real numerals of an expression. -/
def reals : Expr → List Literal
  | integer _ => []
  | real l => [l]
  | name _ => []
  | negate _ e => e.reals
  | binary _ _ l r => l.reals ++ r.reals

end Expr

/-- The whole numerals of a definition. -/
def Definition.integers : Definition → List Literal
  | real _ _ => []
  | integer _ literals => literals

/-- The whole numerals of an assignment, its label among them. -/
def Assignment.integers (a : Assignment) : List Literal := a.label.toList ++ a.expr.integers

/-- The whole numerals of a program: listed ones, labels and operands. -/
def Program.integers (p : Program) : List Literal :=
  p.definitions.flatMap Definition.integers ++ p.assignments.flatMap Assignment.integers

/-- The real numerals of a program. -/
def Program.reals (p : Program) : List Literal := p.assignments.flatMap fun a => a.expr.reals

/-! ### What was read is what the text shows -/

/-- The value of a numeral that is written by position with a point. -/
def Literal.InRange (l : Literal) : Prop :=
  (l.value == 0) = true ∨ (1e-4 ≤ l.value ∧ l.value < 1e16)

/-- A finite whole numeral is read back. -/
theorem Literal.IsRead.prints_whole {l : Literal} (h : l.IsRead .literalInt)
    (hlexeme : IsLexeme l.token.text.toList l.token.kind) (hfinite : l.value.isFinite = true) :
    l.Prints .plain .literalInt := by
  rw [h.1] at hlexeme
  obtain ⟨k, hk, hwhole, hread⟩ := hlexeme.read_whole
  rw [String.ofList_toList, h.2] at hread
  have hvalue : l.value = Rank.toFloat k := Except.ok.inj hread
  rw [hvalue] at hfinite
  obtain ⟨hwritten, hback⟩ := Rank.reads_plain hk hwhole hfinite
  rw [← hvalue] at hwritten hback
  exact ⟨h.1, hwritten, hback⟩

/-- A real numeral in the range is read back. -/
theorem Literal.IsRead.prints_real {l : Literal} (h : l.IsRead .literalReal)
    (hlexeme : IsLexeme l.token.text.toList l.token.kind) (hrange : l.InRange) :
    l.Prints .pointed .literalReal := by
  obtain ⟨k, hk, hvalue⟩ := h.exists_rank hlexeme (.inr rfl)
  rw [InRange, hvalue] at hrange
  obtain ⟨hwritten, hback⟩ := Rank.reads_pointed hk hrange
  rw [← hvalue] at hwritten hback
  exact ⟨h.1, hwritten, hback⟩

theorem Token.isName {t : Token} (h : t.kind = .identifier)
    (hlexeme : IsLexeme t.text.toList t.kind) : t.IsName := ⟨h, h ▸ hlexeme⟩

theorem Expr.IsRead.prints {e : Expr} (h : e.IsRead)
    (hlexeme : ∀ t ∈ e.tokens, IsLexeme t.text.toList t.kind)
    (hintegers : ∀ l ∈ e.integers, l.value.isFinite = true) (hreals : ∀ l ∈ e.reals, l.InRange) :
    e.Prints := by
  induction e with
  | integer l =>
    exact Literal.IsRead.prints_whole h (hlexeme _ List.mem_cons_self)
      (hintegers l List.mem_cons_self)
  | real l =>
    exact Literal.IsRead.prints_real h (hlexeme _ List.mem_cons_self)
      (hreals l List.mem_cons_self)
  | name t => exact Token.isName h (hlexeme t List.mem_cons_self)
  | negate t e ih =>
    obtain ⟨-, hrest⟩ := List.forall_mem_cons.mp hlexeme
    exact ⟨h.1, ih h.2 hrest hintegers hreals⟩
  | binary op t l r ihl ihr =>
    obtain ⟨⟨hkind, hop⟩, hl, hr⟩ := h
    obtain ⟨hleft, hsign, hright⟩ : (∀ u ∈ l.tokens, IsLexeme u.text.toList u.kind) ∧
        IsLexeme t.text.toList t.kind ∧ ∀ u ∈ r.tokens, IsLexeme u.text.toList u.kind := by
      simpa only [tokens, List.forall_mem_append, List.forall_mem_cons] using hlexeme
    obtain ⟨hleftIntegers, hrightIntegers⟩ := List.forall_mem_append.mp hintegers
    obtain ⟨hleftReals, hrightReals⟩ := List.forall_mem_append.mp hreals
    exact ⟨⟨hkind, hop, hsign⟩, ihl hl hleft hleftIntegers hleftReals,
      ihr hr hright hrightIntegers hrightReals⟩

theorem Definition.IsRead.prints {d : Definition} (h : d.IsRead)
    (hlexeme : ∀ t ∈ d.tokens, IsLexeme t.text.toList t.kind)
    (hintegers : ∀ l ∈ d.integers, l.value.isFinite = true) : d.Prints := by
  have hkeyword : ∀ {keyword : Token} {text : String} {k : Kind}, keyword.kind = k →
      IsKeyword text k → IsLexeme keyword.text.toList keyword.kind → keyword.text = text := by
    rintro keyword text k rfl hword hk
    exact String.toList_injective (hk.eq_keyword hword)
  cases d with
  | real keyword names =>
    obtain ⟨hkind, hne, hnames⟩ := h
    obtain ⟨hword, hrest⟩ := List.forall_mem_cons.mp hlexeme
    exact ⟨⟨hkind, hkeyword hkind .realWord hword⟩, hne,
      fun t ht => Token.isName (hnames t ht) (hrest t ht)⟩
  | integer keyword literals =>
    obtain ⟨hkind, hne, hliterals⟩ := h
    obtain ⟨hword, hrest⟩ := List.forall_mem_cons.mp hlexeme
    exact ⟨⟨hkind, hkeyword hkind .integerWord hword⟩, hne, fun l hl =>
      (hliterals l hl).prints_whole (hrest _ (List.mem_map_of_mem hl)) (hintegers l hl)⟩

theorem Assignment.IsRead.prints {a : Assignment} (h : a.IsRead)
    (hlexeme : ∀ t ∈ a.tokens, IsLexeme t.text.toList t.kind)
    (hintegers : ∀ l ∈ a.integers, l.value.isFinite = true)
    (hreals : ∀ l ∈ a.expr.reals, l.InRange) : a.Prints := by
  obtain ⟨hlabel, hrest⟩ := List.forall_mem_append.mp hlexeme
  obtain ⟨htarget, hexpr⟩ := List.forall_mem_cons.mp hrest
  obtain ⟨hlabelFinite, hexprFinite⟩ := List.forall_mem_append.mp hintegers
  refine ⟨fun l hl => ?_, Token.isName h.target htarget, h.expr.prints hexpr hexprFinite hreals⟩
  have htoken : l.token ∈ (a.label.map Literal.token).toList :=
    Option.mem_toList.mpr (Option.mem_map_of_mem _ hl)
  exact (h.label l hl).prints_whole (hlabel _ htoken) (hlabelFinite l (Option.mem_toList.mpr hl))

/-- **A program that was read is what its text shows.** -/
theorem Program.prints_of_parse {source : String} {ts : List Token} {p : Program}
    (hts : tokenize source = .ok ts) (hp : parse ts = .ok p)
    (hintegers : ∀ l ∈ p.integers, l.value.isFinite = true) (hreals : ∀ l ∈ p.reals, l.InRange) :
    p.Prints := by
  have hread := isRead_of_parse hp
  have hlexeme : ∀ t ∈ p.tokens, IsLexeme t.text.toList t.kind :=
    fun t ht => isLexeme_of_parse hts hp ht
  obtain ⟨hdefinitions, hassignments⟩ := List.forall_mem_append.mp hlexeme
  obtain ⟨hlisted, hoperands⟩ := List.forall_mem_append.mp hintegers
  refine ⟨fun d hd => ?_, fun a ha => ?_⟩
  · exact (hread.definitions d hd).prints
      (fun t ht => hdefinitions t (List.mem_flatMap_of_mem hd ht))
      fun l hl => hlisted l (List.mem_flatMap_of_mem hd hl)
  · exact (hread.assignments a ha).prints
      (fun t ht => hassignments t (List.mem_flatMap_of_mem ha ht))
      (fun l hl => hoperands l (List.mem_flatMap_of_mem ha hl))
      fun l hl => hreals l (List.mem_flatMap_of_mem ha hl)

/-! ### The text is that of the outline -/

theorem Expr.text_outline (e : Expr) : e.outline.text = e.text := by
  induction e with
  | integer l => rfl
  | real l => rfl
  | name t => rfl
  | negate t e ih => rw [outline, text, text, ih]
  | binary op t l r ihl ihr => rw [outline, text, text, ihl, ihr]

theorem Definition.text_outline (d : Definition) : d.outline.text = d.text := by
  cases d with
  | real keyword names =>
    rw [outline, text, text, List.map_map]
    rfl
  | integer keyword literals =>
    rw [outline, text, text, List.map_map]
    rfl

theorem Assignment.text_outline (a : Assignment) : a.outline.text = a.text := by
  obtain ⟨label, target, e⟩ := a
  have htarget : target.unplaced.text = target.text := rfl
  cases label with
  | none => simp only [outline, text, e.text_outline, htarget, Option.map_none]
  | some l =>
    have hlabel : l.outline.text = l.text := rfl
    simp only [outline, text, e.text_outline, htarget, hlabel, Option.map_some]

/-- Places and spellings of numerals do not show in the text. -/
theorem Program.text_outline (p : Program) : p.outline.text = p.text := by
  simp only [text, lines, outline, List.map_map, Function.comp_def, Definition.text_outline,
    Assignment.text_outline]

/-! ### Reading the text -/

/-- The tokens of a derivation are read before the end of the text. -/
theorem Derivation.parse_eq_ok {d : Derivation} {p : Program} (h : d.program? = some p) :
    parse (d.tokens ++ [.sample .eof ""]) = .ok p := by
  obtain ⟨r, hsteps, -, -⟩ := Reading.exists_steps_of_derivation h
  have hbefore : beforeEnd (d.tokens ++ [.sample .eof ""]) = d.tokens := by
    rw [beforeEnd_append (Reading.kind_ne_eof_of_steps hsteps)]
    exact List.append_nil _
  exact parse_eq_ok_iff_derivation.mpr ⟨d, hbefore.symm, h⟩

theorem Token.map_unplaced_of_map_lexeme {ts us : List Token}
    (h : ts.map lexeme = us.map lexeme) : ts.map unplaced = us.map unplaced := by
  have hsample : ∀ vs : List Token,
      vs.map unplaced = (vs.map lexeme).map fun x => Token.sample x.1 x.2 := by
    intro vs
    rw [List.map_map]
    rfl
  rw [hsample, h, ← hsample]

/-- **What a program shows is read back.** The text is read as a program of the same
outline. -/
theorem Program.Prints.readsBack {p : Program} (h : p.Prints) :
    ∃ us q, tokenize p.text = .ok us ∧ parse us = .ok q ∧ q.outline = p.outline := by
  obtain ⟨d, p', hp', houtline, hwritten⟩ := p.exists_derivation h
  obtain ⟨us, hus, hlexemes⟩ := hwritten.readsBack
  rw [String.ofList_toList] at hus
  have hsame : (d.tokens ++ [Token.sample .eof ""]).map Token.unplaced = us.map Token.unplaced := by
    refine Token.map_unplaced_of_map_lexeme ?_
    rw [hlexemes, List.map_append]
    rfl
  have hcorresponds := parse_corresponds hsame
  rw [d.parse_eq_ok hp'] at hcorresponds
  obtain ⟨q, hq, hunplaced⟩ := hcorresponds.exists_of_ok
  refine ⟨us, q, hus, hq, ?_⟩
  calc q.outline = q.unplaced.outline := q.outline_unplaced.symm
    _ = p'.unplaced.outline := by rw [hunplaced.unplaced_eq]
    _ = p'.outline := p'.outline_unplaced
    _ = p.outline := houtline

/-- **The text of a program is a program that means the same.** Every source that is
read as a program, in which the whole numerals are finite and the real ones are zero
or lie between 1e-4 and 1e16, has a text that is read as a program with the same
definitions, labels, targets, trees and values. That program has the same text, and
the two run alike in every scope. -/
theorem parse_text_outline {source : String} {ts : List Token} {p : Program}
    (hts : tokenize source = .ok ts) (hp : parse ts = .ok p)
    (hintegers : ∀ l ∈ p.integers, l.value.isFinite = true) (hreals : ∀ l ∈ p.reals, l.InRange) :
    ∃ us q, tokenize p.text = .ok us ∧ parse us = .ok q ∧ q.outline = p.outline ∧
      q.text = p.text ∧ ∀ s, SameRun (q.tokens.zip p.tokens) (q.run s) (p.run s) := by
  obtain ⟨us, q, hus, hq, houtline⟩ :=
    (Program.prints_of_parse hts hp hintegers hreals).readsBack
  refine ⟨us, q, hus, hq, houtline, ?_, fun s => Program.run_corresponds houtline s⟩
  rw [← q.text_outline, houtline, p.text_outline]

/-- A text with a label, a listed numeral and a real one that are written otherwise
than they were read, square brackets and a sign before a product. -/
theorem parse_text_outline_labelled :
    ∃ ts p us q, tokenize "begin\ninteger 007\n010: x = -2.50 * [1 + y]\nend" = .ok ts ∧
      parse ts = .ok p ∧ (∀ l ∈ p.integers, l.value.isFinite = true) ∧
      (∀ l ∈ p.reals, l.InRange) ∧ p.integers.length = 3 ∧ p.reals.length = 1 ∧
      tokenize p.text = .ok us ∧ parse us = .ok q ∧ q.outline = p.outline ∧ q.text = p.text ∧
      ∀ s, SameRun (q.tokens.zip p.tokens) (q.run s) (p.run s) := by
  obtain ⟨ts, p, ⟨hts, hp⟩, htest⟩ := exists_of_any_readProgram
    "begin\ninteger 007\n010: x = -2.50 * [1 + y]\nend"
    (fun p => p.integers.all (fun l => l.value.isFinite) &&
      p.reals.all (fun l => decide (1e-4 ≤ l.value) && decide (l.value < 1e16)) &&
      p.integers.length == 3 && p.reals.length == 1) (by decide +kernel)
  simp only [Bool.and_eq_true, List.all_eq_true, decide_eq_true_eq, beq_iff_eq] at htest
  obtain ⟨⟨⟨hintegers, hbounds⟩, hthree⟩, hone⟩ := htest
  have hreals : ∀ l ∈ p.reals, l.InRange := fun l hl => .inr (hbounds l hl)
  obtain ⟨us, q, hround⟩ := parse_text_outline hts hp hintegers hreals
  exact ⟨ts, p, us, q, hts, hp, hintegers, hreals, hthree, hone, hround⟩

end AssignLang
