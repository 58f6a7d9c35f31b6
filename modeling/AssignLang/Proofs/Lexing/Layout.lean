/-
# Tokens written out are read back

A layout writes lexemes one after the other with blanks between them. Reading it
gives the lexemes back exactly when blanks stand wherever two neighbours would
run together: after a word that a word or a number follows, and between two
numbers. For the longest lexeme at the front of a text is the one that is written
there if the character after it does not continue it (`longest_append_iff`), and
whether it does can be told from the kinds of the two neighbours alone
(`IsLexeme.continues_head`).

Every text that has tokens is a layout of them, so blanks that are added, or
taken away where they are not needed, change neither the kinds nor the texts.

Key definitions: `Kind.continues`, `Kind.joins`, `Piece`, `Layout`, `Separated`,
`Layout.ReadsBack`.
Key theorems: `longest_append_iff`, `IsLexeme.continues_head`, `Run.spells_iff`,
`Run.exists_pieces`, `layout_readsBack_iff`.
-/
import AssignLang.Proofs.Lexing.LongestMatch
import AssignLang.Proofs.Lexing.Coverage

namespace AssignLang
namespace Kind

/-- The keywords and the names. -/
def isWord : Kind → Bool
  | beginWord | endWord | realWord | integerWord | identifier => true
  | _ => false

/-- The numbers, with a point or without. -/
def isNumber : Kind → Bool
  | literalInt | literalReal => true
  | _ => false

/-- A lexeme of the kind goes on with the character. -/
def continues (k : Kind) (c : Char) : Bool :=
  match k with
  | literalInt => c.isDigit || c == '.'
  | literalReal => c.isDigit
  | k => k.isWord && c.isAlphanum

/-- Lexemes of the kinds run together if no blank stands between them. -/
def joins (left right : Kind) : Bool :=
  (left.isWord && (right.isWord || right.isNumber)) || (left.isNumber && right.isNumber)

theorem isWord_ofWord (cs : List Char) : (ofWord cs).isWord = true := by
  have hkeywords : ∀ p ∈ keywords, p.2.isWord = true := by decide
  unfold ofWord
  cases hk : keyword? (String.ofList cs) with
  | none => rfl
  | some k => exact hkeywords _ (keyword?_eq_some_iff.mp hk)

theorem not_isNumber_of_isWord {k : Kind} (h : k.isWord = true) : k.isNumber = false := by
  revert h
  cases k <;> decide

/-- No lexeme goes on with a blank. -/
theorem continues_of_isBlank (k : Kind) {c : Char} (h : isBlank c = true) :
    k.continues c = false := by
  simp only [isBlank, Bool.or_eq_true, beq_iff_eq] at h
  rcases h with (rfl | rfl) | rfl <;> cases k <;> rfl

/-- Words and numbers go on with a digit. -/
theorem continues_of_isDigit (k : Kind) {c : Char} (h : c.isDigit = true) :
    k.continues c = (k.isWord || k.isNumber) := by
  cases k <;> simp [continues, isWord, isNumber, Char.isAlphanum, h]

/-- Only words go on with a letter. -/
theorem continues_of_isAlpha (k : Kind) {c : Char} (h : c.isAlpha = true) :
    k.continues c = k.isWord := by
  have hdigit : c.isDigit = false :=
    Bool.eq_false_iff.mpr fun hd => by simp [not_isAlpha_of_isDigit hd] at h
  have hpoint : c ≠ '.' := by
    rintro rfl
    cases h
  cases k <;> simp [continues, isWord, Char.isAlphanum, h, hdigit, hpoint]

end Kind

/-! ### What runs together -/

theorem IsSign.not_isWord_not_isNumber {c : Char} {k : Kind} (h : IsSign c k) :
    k.isWord = false ∧ k.isNumber = false := by
  cases h <;> exact ⟨rfl, rfl⟩

theorem IsSign.not_continues {c : Char} {k : Kind} (h : IsSign c k) (j : Kind) :
    j.continues c = false := by
  cases h <;> cases j <;> rfl

theorem IsSign.continues_eq_false {c : Char} {k : Kind} (h : IsSign c k) (d : Char) :
    k.continues d = false := by
  cases h <;> rfl

/-- The first character of a lexeme continues another one exactly when the two
kinds run together. -/
theorem IsLexeme.continues_head {c : Char} {cs : List Char} {k : Kind} (h : IsLexeme (c :: cs) k)
    (j : Kind) : j.continues c = j.joins k := by
  rcases h.sign_or_number_or_word with ⟨hs, -⟩ | ⟨hd, hn⟩ | ⟨ha, -, hw⟩
  · obtain ⟨hword, hnumber⟩ := hs.not_isWord_not_isNumber
    simp [hs.not_continues, Kind.joins, hword, hnumber]
  · have hk : k.isNumber = true := by
      rcases hn with ⟨-, rfl⟩ | ⟨ds, es, -, -, -, -, rfl⟩ <;> rfl
    simp [Kind.continues_of_isDigit j hd, Kind.joins, hk]
  · have hk : k.isWord = true := hw ▸ Kind.isWord_ofWord _
    simp [Kind.continues_of_isAlpha j ha, Kind.joins, hk, Kind.not_isNumber_of_isWord hk]

/-- A word is a letter and more letters and digits. -/
theorem IsLexeme.exists_letter {x : List Char} {k : Kind} (h : IsLexeme x k)
    (hk : k.isWord = true) :
    ∃ c cs, x = c :: cs ∧ c.isAlpha = true ∧ ∀ d ∈ cs, d.isAlphanum = true := by
  cases h with
  | sign h =>
    rw [h.not_isWord_not_isNumber.1] at hk
    cases hk
  | whole hne hds => cases hk
  | real hne hds hes => cases hk
  | keyword h => exact h.chars
  | name hc hcs h => exact ⟨_, _, rfl, hc, hcs⟩

/-- A word and what follows it, if that does not continue the word. -/
theorem Longest.word_append {c : Char} {cs u : List Char} (hc : c.isAlpha = true)
    (hcs : ∀ d ∈ cs, d.isAlphanum = true) (hu : ∀ d ∈ u.head?, d.isAlphanum = false) :
    Longest (c :: cs ++ u) (c :: cs) (Kind.ofWord (c :: cs)) := by
  have hword := Longest.word hc (cs ++ u)
  rwa [takeWhile_append_eq hcs hu] at hword

/-- A lexeme and a character that continues it are a lexeme. -/
theorem IsLexeme.exists_concat {x : List Char} {k : Kind} (h : IsLexeme x k) {c : Char}
    (hc : k.continues c = true) : ∃ j, IsLexeme (x ++ [c]) j := by
  by_cases hk : k.isWord = true
  · obtain ⟨d, ds, rfl, hd, hds⟩ := h.exists_letter hk
    have halnum : c.isAlphanum = true := by
      revert hk hc
      cases k <;> simp [Kind.isWord, Kind.continues]
    have hall : ∀ e ∈ ds ++ [c], e.isAlphanum = true := by
      simpa [or_imp, forall_and, halnum] using hds
    have hword := Longest.word_append (u := []) hd hall (by simp)
    exact ⟨_, hword.1⟩
  · cases h with
    | sign h =>
      rw [h.continues_eq_false] at hc
      cases hc
    | @whole ds hne hds =>
      simp only [Kind.continues, Bool.or_eq_true, beq_iff_eq] at hc
      rcases hc with hc | rfl
      · refine ⟨_, .whole (by simp) ?_⟩
        simpa [or_imp, forall_and, hc] using hds
      · have hnone : ∀ e ∈ ([] : List Char), e.isDigit = true := by simp
        exact ⟨_, .real hne hds hnone⟩
    | @real ds es hne hds hes =>
      rw [List.append_assoc, List.cons_append]
      refine ⟨_, .real hne hds ?_⟩
      simpa [or_imp, forall_and, show c.isDigit = true from hc] using hes
    | keyword h =>
      exact absurd (by cases h <;> rfl) hk
    | name => exact absurd rfl hk

/-- **A lexeme is the longest one at its place exactly when the character after it
does not continue it.** -/
theorem longest_append_iff {x u : List Char} {k : Kind} (h : IsLexeme x k) :
    Longest (x ++ u) x k ↔ ∀ c ∈ u.head?, k.continues c = false := by
  constructor
  · intro hlongest c hc
    refine Bool.eq_false_iff.mpr fun hcontinues => ?_
    obtain ⟨j, hj⟩ := h.exists_concat hcontinues
    have hpre : x ++ [c] <+: x ++ u := by
      cases u with
      | nil => cases hc
      | cons d u =>
        obtain rfl : d = c := by simpa using hc
        simp
    have hle := hlongest.2.2 _ j ⟨hj, hpre⟩
    rw [List.length_append, List.length_singleton] at hle
    omega
  · intro hu
    by_cases hk : k.isWord = true
    · obtain ⟨c, cs, rfl, hc, hcs⟩ := h.exists_letter hk
      have hstop : ∀ d ∈ u.head?, d.isAlphanum = false := by
        intro d hd
        have hd' := hu d hd
        revert hk hd'
        cases k <;> simp [Kind.isWord, Kind.continues]
      have hword := Longest.word_append hc hcs hstop
      rwa [hword.1.kind_eq h] at hword
    · cases h with
      | sign h => exact .sign h u
      | whole hne hds =>
        refine .whole hne hds fun d hd => ?_
        simpa [Kind.continues] using hu d hd
      | @real ds es hne hds hes =>
        have hreal := Longest.real hne hds (es ++ u)
        rw [takeWhile_append_eq hes hu] at hreal
        simpa using hreal
      | keyword h => exact absurd (by cases h <;> rfl) hk
      | name => exact absurd rfl hk

theorem Longest.eq {cs x y : List Char} {k j : Kind} (hx : Longest cs x k) (hy : Longest cs y j) :
    x = y ∧ k = j := by
  have hle := hx.2.2 y j ⟨hy.1, hy.2.1⟩
  have hge := hy.2.2 x k ⟨hx.1, hx.2.1⟩
  obtain rfl : x = y :=
    (List.prefix_of_prefix_length_le hx.2.1 hy.2.1 hge).eq_of_length (Nat.le_antisymm hge hle)
  exact ⟨rfl, hx.1.kind_eq hy.1⟩

/-! ### Layouts -/

/-- A lexeme and the blanks after it. -/
structure Piece where
  kind : Kind
  chars : List Char
  gap : List Char
  isLexeme : IsLexeme chars kind
  blanks : ∀ c ∈ gap, isBlank c = true

/-- Blanks, and then lexemes that are written one after the other. -/
structure Layout where
  lead : List Char
  pieces : List Piece
  blanks : ∀ c ∈ lead, isBlank c = true

/-- The kind and the text. -/
def Piece.lexeme (p : Piece) : Kind × String := (p.kind, String.ofList p.chars)

/-- The kind and the text. -/
def Token.lexeme (t : Token) : Kind × String := (t.kind, t.text)

/-- The characters of pieces, one after the other. -/
def Piece.allChars (ps : List Piece) : List Char := ps.flatMap fun p => p.chars ++ p.gap

/-- The text that a layout writes. -/
def Layout.text (l : Layout) : String := String.ofList (l.lead ++ Piece.allChars l.pieces)

/-- Blanks stand between any two neighbours that would run together. -/
def Separated : List Piece → Prop
  | [] => True
  | p :: ps => (∀ q ∈ ps.head?, p.kind.joins q.kind = true → p.gap ≠ []) ∧ Separated ps

/-- The tokens are the pieces and the end of the text. -/
def Spells (ts : List Token) (ps : List Piece) : Prop :=
  ts.map Token.lexeme = ps.map Piece.lexeme ++ [(.eof, "")]

/-- Reading what a layout writes gives its lexemes and the end of the text. -/
def Layout.ReadsBack (l : Layout) : Prop := ∃ ts, tokenize l.text = .ok ts ∧ Spells ts l.pieces

/-- What follows a piece does not continue it exactly when the piece is apart from
its neighbour. -/
theorem Piece.apart_iff (p : Piece) (ps : List Piece) :
    (∀ c ∈ (p.gap ++ allChars ps).head?, p.kind.continues c = false) ↔
      ∀ q ∈ ps.head?, p.kind.joins q.kind = true → p.gap ≠ [] := by
  have hblanks := p.blanks
  cases hgap : p.gap with
  | cons b g =>
    rw [hgap] at hblanks
    refine iff_of_true ?_ fun _ _ _ => List.cons_ne_nil b g
    intro c hc
    obtain rfl : b = c := by simpa using hc
    exact p.kind.continues_of_isBlank (hblanks b List.mem_cons_self)
  | nil =>
    cases ps with
    | nil => simp [allChars]
    | cons q ps =>
      have hq := q.isLexeme
      cases hchars : q.chars with
      | nil => exact absurd hchars hq.ne_nil
      | cons c cs =>
        rw [hchars] at hq
        simp [allChars, hchars, hq.continues_head p.kind]

/-! ### The blanks before a call -/

theorem Gap.exists_blanks {cs : List Char} {n m : Nat} (h : Gap cs n m) :
    ∃ g, (∀ c ∈ g, isBlank c = true) ∧ cs.drop n = g ++ cs.drop m := by
  have hle := h.le
  refine ⟨(cs.drop n).take (m - n), ?_, ?_⟩
  · intro c hc
    obtain ⟨i, hi⟩ := List.mem_iff_getElem?.mp hc
    rw [List.getElem?_take] at hi
    split at hi
    · next hlt =>
      rw [List.getElem?_drop] at hi
      exact h.blank (n + i) c ⟨by omega, by omega⟩ hi
    · cases hi
  · have hdrop : (cs.drop n).drop (m - n) = cs.drop m := by
      rw [List.drop_drop]
      congr 1
      omega
    rw [← hdrop, List.take_append_drop]

/-- The blanks that a call passes are those that stand there. -/
theorem Gap.eq_of_append {cs g u : List Char} {n m : Nat} (h : Gap cs n m)
    (hg : ∀ c ∈ g, isBlank c = true) (hu : ∀ c ∈ u.head?, isBlank c = false)
    (heq : cs.drop n = g ++ u) : m = n + g.length ∧ cs.drop m = u := by
  obtain ⟨g', hg', heq'⟩ := h.exists_blanks
  have hstop : ∀ c ∈ (cs.drop m).head?, isBlank c = false := by
    rw [List.head?_drop]
    exact h.stop
  obtain ⟨rfl, hdrop⟩ := append_inj_of_forall hg' hg hstop hu (heq'.symm.trans heq)
  have hle := h.le
  have hle_length := h.le_length
  have hlen := congrArg List.length heq'
  rw [List.length_append, List.length_drop, List.length_drop] at hlen
  exact ⟨by omega, hdrop⟩

namespace Call

variable {cs g x u : List Char} {k : Kind} {n j : Nat} {r : Except Diagnostic Token}

/-- Where only blanks are left, a call comes to the end. -/
theorem eq_endOf_of_blanks (h : Call cs n r j) (hg : ∀ c ∈ g, isBlank c = true)
    (heq : cs.drop n = g) : r = endOf cs := by
  have hnil : ∀ {m : Nat}, Gap cs n m → cs.drop m = [] := fun hgap =>
    (hgap.eq_of_append (u := []) hg (by simp) (by simpa using heq)).2
  cases h with
  | finish hgap => rfl
  | token hgap hx => exact absurd (hnil hgap ▸ hx.2.1) (by simpa using hx.1.ne_nil)
  | unexpected hgap hc hx =>
    have hhead := List.head?_drop ▸ hc
    rw [hnil hgap] at hhead
    cases hhead

/-- Where a lexeme comes after the blanks, a call takes the longest one there. -/
theorem exists_longest (h : Call cs n r j) (hg : ∀ c ∈ g, isBlank c = true)
    (hx : IsLexeme x k) (heq : cs.drop n = g ++ (x ++ u)) :
    ∃ y i t, Longest (x ++ u) y i ∧ r = .ok t ∧ t.lexeme = (i, String.ofList y) ∧
      j = n + g.length + y.length ∧ cs.drop j = (x ++ u).drop y.length := by
  have hhead : ∀ c ∈ (x ++ u).head?, isBlank c = false := by
    obtain ⟨d, ds, rfl⟩ := List.exists_cons_of_ne_nil hx.ne_nil
    intro c hc
    obtain rfl : d = c := by simpa using hc
    exact hx.not_isBlank d List.mem_cons_self
  have hdrop : ∀ {m : Nat}, Gap cs n m → m = n + g.length ∧ cs.drop m = x ++ u := fun hgap =>
    hgap.eq_of_append hg hhead heq
  cases h with
  | finish hgap =>
    have hnil := (hdrop hgap).2
    rw [List.drop_length] at hnil
    exact absurd (List.append_eq_nil_iff.mp hnil.symm).1 hx.ne_nil
  | @token m y i hgap hy =>
    obtain ⟨rfl, hm⟩ := hdrop hgap
    rw [hm] at hy
    refine ⟨y, i, _, hy, rfl, rfl, rfl, ?_⟩
    rw [← List.drop_drop, hm]
  | unexpected hgap hc hnone =>
    rw [(hdrop hgap).2] at hnone
    exact absurd ⟨x, k, hx, List.prefix_append x u⟩ hnone

end Call

/-! ### Reading back -/

/-- Where a lexeme comes after the blanks, a run takes the longest one there and goes
on behind it. -/
theorem Run.exists_longest {cs g x u : List Char} {k : Kind} {n : Nat}
    {rs : List (Except Diagnostic Token)} (h : Run cs n rs) (hg : ∀ c ∈ g, isBlank c = true)
    (hx : IsLexeme x k) (heq : cs.drop n = g ++ (x ++ u)) :
    ∃ y i t rs', Longest (x ++ u) y i ∧ rs = .ok t :: rs' ∧ t.lexeme = (i, String.ofList y) ∧
      cs.drop (n + g.length + y.length) = (x ++ u).drop y.length ∧
      Run cs (n + g.length + y.length) rs' := by
  cases h with
  | last hcall hr =>
    obtain ⟨y, i, t, hy, rfl, ht, -, -⟩ := hcall.exists_longest hg hx heq
    have hk : t.kind = i := congrArg Prod.fst ht
    exact absurd (by simpa [Lexer.isEnd, hk] using hr) hy.1.kind_ne_eof
  | cons hcall hr hrs =>
    obtain ⟨y, i, t, hy, rfl, ht, rfl, hdrop⟩ := hcall.exists_longest hg hx heq
    exact ⟨y, i, t, _, hy, rfl, ht, hdrop, hrs⟩

/-- **The results on what pieces write are these pieces exactly when the pieces are
separated.** The induction is on the pieces, and each of them is one call. -/
theorem Run.spells_iff : ∀ {ps : List Piece} {cs g : List Char} {n : Nat}
    {rs : List (Except Diagnostic Token)}, Run cs n rs → (∀ c ∈ g, isBlank c = true) →
    cs.drop n = g ++ Piece.allChars ps →
      ((∃ ts, rs = ts.map .ok ∧ Spells ts ps) ↔ Separated ps)
  | [], cs, g, n, rs, h, hg, heq => by
    have hend : ∀ {r j}, Call cs n r j → r = endOf cs := fun hcall =>
      hcall.eq_endOf_of_blanks hg (by simpa [Piece.allChars] using heq)
    cases h with
    | last hcall hr =>
      rw [hend hcall]
      exact iff_of_true ⟨[.atEnd cs.length (positionAt cs cs.length)], rfl, rfl⟩ trivial
    | cons hcall hr hrs =>
      rw [hend hcall] at hr
      cases hr
  | p :: ps, cs, g, n, rs, h, hg, heq => by
    rw [Piece.allChars, List.flatMap_cons, List.append_assoc, ← Piece.allChars] at heq
    have hlongest := longest_append_iff (u := p.gap ++ Piece.allChars ps) p.isLexeme
    rw [p.apart_iff ps] at hlongest
    obtain ⟨y, i, t, rs, hy, rfl, ht, hdrop, hrs⟩ := h.exists_longest hg p.isLexeme heq
    have hrest : y = p.chars →
        cs.drop (n + g.length + y.length) = p.gap ++ Piece.allChars ps := by
      rintro rfl
      rw [hdrop, List.drop_left]
    constructor
    · rintro ⟨ts, hts, hspells⟩
      cases ts with
      | nil => cases hts
      | cons t' ts =>
        obtain ⟨ht', rfl⟩ := List.cons.inj hts
        obtain rfl := Except.ok.inj ht'
        obtain ⟨hp, hps⟩ := List.cons.inj hspells
        obtain ⟨rfl, hchars⟩ := Prod.mk.inj (ht.symm.trans hp)
        obtain rfl : y = p.chars := String.ofList_injective hchars
        exact ⟨hlongest.mp hy, (hrs.spells_iff p.blanks (hrest rfl)).mp ⟨ts, rfl, hps⟩⟩
    · rintro ⟨hapart, hseparated⟩
      obtain ⟨rfl, rfl⟩ := hy.eq (hlongest.mpr hapart)
      obtain ⟨ts, rfl, hts⟩ := (hrs.spells_iff p.blanks (hrest rfl)).mpr hseparated
      refine ⟨t :: ts, rfl, ?_⟩
      rw [Spells, List.map_cons, ht, hts]
      rfl

/-- Results that are all tokens are those of pieces that the text writes. -/
theorem Run.exists_pieces {cs : List Char} {n : Nat} {rs : List (Except Diagnostic Token)}
    (h : Run cs n rs) : ∀ {ts : List Token}, rs = ts.map .ok →
      ∃ g ps, (∀ c ∈ g, isBlank c = true) ∧ cs.drop n = g ++ Piece.allChars ps ∧ Spells ts ps := by
  induction h with
  | @last n j r h hr =>
    intro ts hts
    obtain ⟨rfl, -⟩ := h.eq_endOf hr
    obtain ⟨t, rfl, ht⟩ : ∃ t, ts = [t] ∧ endOf cs = .ok t := by
      cases ts with
      | nil => cases hts
      | cons t ts =>
        obtain ⟨ht, hnil⟩ := List.cons.inj hts
        exact ⟨t, by simpa using hnil.symm, ht⟩
    obtain rfl := Except.ok.inj ht
    obtain ⟨g, hg, hdrop⟩ := h.gap.exists_blanks
    refine ⟨g, [], hg, ?_, rfl⟩
    rw [hdrop]
    show g ++ cs.drop cs.length = g ++ []
    rw [List.drop_length]
  | @cons n j r rs h hr hrs ih =>
    intro ts hts
    cases ts with
    | nil => cases hts
    | cons t ts =>
      obtain ⟨rfl, hrest⟩ := List.cons.inj hts
      obtain ⟨g', ps, hg', hdrop', hps⟩ := ih hrest
      cases h with
      | finish hgap => cases hr
      | @token m x k hgap hx =>
        obtain ⟨g, hg, hdrop⟩ := hgap.exists_blanks
        have hsplit : cs.drop m = x ++ (g' ++ Piece.allChars ps) := by
          obtain ⟨u, hu⟩ := hx.2.1
          rw [← hdrop', ← List.drop_drop, ← hu, List.drop_left]
        obtain ⟨hlexeme, -⟩ := hx
        refine ⟨g, ⟨k, x, g', hlexeme, hg'⟩ :: ps, hg, ?_, ?_⟩
        · rw [hdrop, hsplit, Piece.allChars, Piece.allChars, List.flatMap_cons, List.append_assoc]
        · rw [Spells, List.map_cons, hps]
          rfl

/-- **What is written out is read back.** A layout is read back exactly when blanks
stand between the neighbours that would run together. Every text that has tokens
is such a layout, and every other such layout of the same lexemes has the same
kinds and texts. -/
theorem layout_readsBack_iff :
    (∀ l : Layout, l.ReadsBack ↔ Separated l.pieces) ∧
    ∀ s ts, tokenize s = .ok ts → ∃ l : Layout, l.text = s ∧ Separated l.pieces ∧
      ∀ m : Layout, m.pieces.map Piece.lexeme = l.pieces.map Piece.lexeme → Separated m.pieces →
        ∃ us, tokenize m.text = .ok us ∧ us.map Token.lexeme = ts.map Token.lexeme := by
  have hiff : ∀ l : Layout, l.ReadsBack ↔ Separated l.pieces := by
    intro l
    have hrun := (Lexer.at_ofString l.text).run_results
    have hread := hrun.spells_iff l.blanks (by rw [Layout.text, String.toList_ofList]; rfl)
    rw [← hread]
    simp only [Layout.ReadsBack, tokenize_eq_ok_iff]
  refine ⟨hiff, ?_⟩
  intro s ts hts
  have hrun := (Lexer.at_ofString s).run_results
  obtain ⟨g, ps, hg, hdrop, hps⟩ := hrun.exists_pieces (tokenize_eq_ok_iff.mp hts)
  have htext : String.ofList (g ++ Piece.allChars ps) = s := by
    rw [← hdrop, List.drop_zero, String.ofList_toList]
  refine ⟨⟨g, ps, hg⟩, htext, ?_, ?_⟩
  · exact (hiff ⟨g, ps, hg⟩).mp ⟨ts, by rw [Layout.text, htext, hts], hps⟩
  · intro m hm hseparated
    obtain ⟨us, hus, hspells⟩ := (hiff m).mpr hseparated
    refine ⟨us, hus, ?_⟩
    calc us.map Token.lexeme = m.pieces.map Piece.lexeme ++ [(Kind.eof, "")] := hspells
      _ = ps.map Piece.lexeme ++ [(Kind.eof, "")] := by rw [hm]
      _ = ts.map Token.lexeme := hps.symm

/-- The first blank is needed, and the second is not. -/
theorem layout_readsBack_word :
    ∃ ts, tokenize "a1 5. -" = .ok ts ∧ ∃ l : Layout, l.text = "a1 5. -" ∧ Separated l.pieces ∧
      ∀ m : Layout, m.pieces.map Piece.lexeme = l.pieces.map Piece.lexeme → Separated m.pieces →
        ∃ us, tokenize m.text = .ok us ∧ us.map Token.lexeme = ts.map Token.lexeme := by
  have hok : (tokenize "a1 5. -").toOption.isSome = true := by decide +kernel
  cases hts : tokenize "a1 5. -" with
  | error d =>
    rw [hts] at hok
    cases hok
  | ok ts => exact ⟨ts, rfl, layout_readsBack_iff.2 "a1 5. -" ts hts⟩

end AssignLang
