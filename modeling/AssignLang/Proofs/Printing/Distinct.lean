/-
# Programs that differ have different texts

The text of an expression is an operand, or it is in brackets; so where it ends can be
seen without what follows it. An operand shows its kind: a whole numeral is digits, a
real one starts with a digit and has another character too, and a name starts with a
letter; and a numeral is written as its value is read. So texts of expressions are
equal only if the expressions have one outline, whatever follows them
(`Expr.Legible.text_append_inj`). Blanks separate what a definition lists and line
feeds the lines, and the first word of a line says whether it is a definition. So two
programs of texts, without infinite numerals, have the same text exactly if they have
the same outline.

Key definitions: `isOperandChar`, `Expr.ofOperand`, `Expr.Legible`, `Program.Legible`,
`isKeywordLine`.
Key theorems: `Expr.Legible.operand`, `Expr.Legible.text_append_inj`,
`Program.Legible.text_inj`, `text_eq_iff_outline_eq`.
-/
import AssignLang.Proofs.Number.Scientific
import AssignLang.Proofs.Printing.RoundTrip
import AssignLang.Proofs.Reading.Equality

namespace AssignLang

/-! ### Operands -/

/-- The characters of an operand: those of names, and those of numerals with the sign of
an exponent. -/
def isOperandChar (c : Char) : Bool := c.isAlphanum || c == '.' || c == '-'

theorem closing_not_isOperandChar : isOperandChar ')' = false := by decide

theorem blank_not_isOperandChar : isOperandChar ' ' = false := by decide

/-- A text that is an operand. -/
structure ShowsOperand (x : List Char) : Prop where
  head : ∃ c ∈ x.head?, c.isAlphanum = true
  chars : ∀ c ∈ x, isOperandChar c = true

theorem isOperandChar_of_isAlphanum {c : Char} (h : c.isAlphanum = true) :
    isOperandChar c = true := by simp [isOperandChar, h]

theorem Char.isAlphanum_of_isDigit {c : Char} (h : c.isDigit = true) : c.isAlphanum = true := by
  simp [Char.isAlphanum, h]

theorem ShowsOperand.ne_nil {x : List Char} (h : ShowsOperand x) : x ≠ [] := by
  obtain ⟨c, hc, -⟩ := h.head
  rintro rfl
  cases hc

/-- A character of no operand does not stand in one. -/
theorem ShowsOperand.not_mem {x : List Char} (h : ShowsOperand x) {c : Char}
    (hc : isOperandChar c = false) : c ∉ x := by
  intro hmem
  rw [h.chars c hmem] at hc
  cases hc

/-- What starts with an operand starts with a letter or a digit. -/
theorem ShowsOperand.append_ne {x : List Char} (h : ShowsOperand x) {c : Char}
    (hc : c.isAlphanum = false) (u w : List Char) : x ++ u ≠ c :: w := by
  obtain ⟨d, hd, halphanum⟩ := h.head
  cases x with
  | nil => cases hd
  | cons a x =>
    obtain rfl : a = d := by simpa using hd
    intro heq
    rw [(List.cons.inj heq).1, hc] at halphanum
    cases halphanum

theorem ShowsOperand.of_isAlphanum {x : List Char} (hne : x ≠ [])
    (h : ∀ c ∈ x, c.isAlphanum = true) : ShowsOperand x := by
  cases x with
  | nil => exact absurd rfl hne
  | cons c x =>
    exact ⟨⟨c, rfl, h c List.mem_cons_self⟩, fun d hd => isOperandChar_of_isAlphanum (h d hd)⟩

theorem ShowsReal.showsOperand {x : List Char} (h : ShowsReal x) : ShowsOperand x := by
  obtain ⟨c, hc, hdigit⟩ := h.head
  refine ⟨⟨c, hc, Char.isAlphanum_of_isDigit hdigit⟩, fun d hd => ?_⟩
  rcases h.chars d hd with hd | hd
  · exact isOperandChar_of_isAlphanum (Char.isAlphanum_of_isDigit hd)
  · have hsigns : ∀ a ∈ ['.', 'e', '-'], isOperandChar a = true :=
      List.forall_mem_cons.mpr ⟨rfl, List.forall_mem_cons.mpr ⟨rfl, by simp [isOperandChar]⟩⟩
    exact hsigns d hd

/-- A whole numeral is digits. -/
theorem IsLexeme.digits {x : List Char} (h : IsLexeme x .literalInt) :
    x ≠ [] ∧ ∀ c ∈ x, c.isDigit = true := by
  cases h with
  | sign h => cases h
  | whole hne hds => exact ⟨hne, hds⟩
  | keyword h => cases h

theorem IsLexeme.showsOperand_whole {x : List Char} (h : IsLexeme x .literalInt) :
    ShowsOperand x :=
  .of_isAlphanum h.digits.1 fun c hc => Char.isAlphanum_of_isDigit (h.digits.2 c hc)

/-- A letter, letters and digits are an operand. -/
theorem ShowsOperand.of_letters {x : List Char}
    (h : ∃ c cs, x = c :: cs ∧ c.isAlpha = true ∧ ∀ d ∈ cs, d.isAlphanum = true) :
    ShowsOperand x := by
  obtain ⟨c, cs, rfl, hc, hcs⟩ := h
  exact .of_isAlphanum (List.cons_ne_nil c cs)
    (List.forall_mem_cons.mpr ⟨by simp [Char.isAlphanum, hc], hcs⟩)

theorem Token.IsName.letters {t : Token} (h : t.IsName) :
    ∃ c cs, t.text.toList = c :: cs ∧ c.isAlpha = true ∧ ∀ d ∈ cs, d.isAlphanum = true := by
  have hname := h.2.isName
  rw [String.ofList_toList] at hname
  exact exists_letters_of_isName hname

theorem Token.IsName.showsOperand {t : Token} (h : t.IsName) : ShowsOperand t.text.toList :=
  .of_letters h.letters

/-- Names of one text are the same but for their places. -/
theorem Token.IsName.unplaced_eq {t u : Token} (ht : t.IsName) (hu : u.IsName)
    (h : t.text = u.text) : t.unplaced = u.unplaced :=
  unplaced_eq_iff.mpr ⟨ht.1.trans hu.1.symm, h⟩

/-! ### Numerals -/

/-- Numerals of one kind that are read as they are written have one outline if they have
one text. -/
theorem Literal.outline_eq_of_write {style : Style} {l m : Literal}
    (hkind : l.token.kind = m.token.kind)
    (hl : Numeral.read (style.write l.value) = .ok l.value)
    (hm : Numeral.read (style.write m.value) = .ok m.value)
    (h : style.write l.value = style.write m.value) : l.outline = m.outline := by
  rw [h, hm] at hl
  rw [outline, outline, hkind, Except.ok.inj hl]

theorem Literal.Prints.outline_eq_of_text {l m : Literal} (hl : l.Prints .plain .literalInt)
    (hm : m.Prints .plain .literalInt) (h : l.text = m.text) : l.outline = m.outline :=
  outline_eq_of_write (hl.kind_eq.trans hm.kind_eq.symm) hl.read_eq hm.read_eq h

/-- A real numeral that is not infinite is read as it is written, and it does not look
like a whole one. -/
theorem Literal.IsRead.shows_real {l : Literal} (h : l.IsRead .literalReal)
    (hlexeme : IsLexeme l.token.text.toList l.token.kind) (hfinite : l.value.isInf = false) :
    ShowsReal (Style.pointed.write l.value).toList ∧
      Numeral.read (Style.pointed.write l.value) = .ok l.value := by
  obtain ⟨k, hk, hvalue⟩ := h.exists_rank hlexeme (.inr rfl)
  rw [hvalue] at hfinite ⊢
  exact Rank.reads_pointed_finite (Rank.lt_top_of_isInf hk hfinite)

theorem Literal.IsRead.prints_whole_of_isInf {l : Literal} (h : l.IsRead .literalInt)
    (hlexeme : IsLexeme l.token.text.toList l.token.kind) (hfinite : l.value.isInf = false) :
    l.Prints .plain .literalInt :=
  h.prints_whole hlexeme
    (isFinite_of_isInf (h.unsigned hlexeme (.inl rfl)).isNumber hfinite)

theorem BinaryOp.symbol_injective {a b : BinaryOp} (h : a.symbol = b.symbol) : a = b := by
  revert h
  cases a <;> cases b <;> decide

/-! ### Expressions -/

/-- What the expression shows is enough to tell it from others: it was read from
lexemes, and no value in it is infinite. -/
structure Expr.Legible (e : Expr) : Prop where
  isRead : e.IsRead
  isLexeme : ∀ t ∈ e.tokens, IsLexeme t.text.toList t.kind
  notInf : ∀ l ∈ e.integers ++ e.reals, l.value.isInf = false

/-- The expression is a numeral or a name. -/
def Expr.isLeaf : Expr → Bool
  | negate _ _ => false
  | binary _ _ _ _ => false
  | _ => true

/-- The outline of an operand, read off its text: digits are a whole numeral, a digit
and other characters a real one, and the others a name. -/
def Expr.ofOperand (x : List Char) : Expr :=
  let value := (Numeral.read (String.ofList x)).toOption.getD 0
  if x.all Char.isDigit then integer ⟨.sample .literalInt "", value⟩
  else if x.head?.any Char.isDigit then real ⟨.sample .literalReal "", value⟩
  else name (.sample .identifier (String.ofList x))

theorem Expr.toList_text_negate (t : Token) (e : Expr) :
    (negate t e).text.toList = '(' :: '-' :: (e.text.toList ++ [')']) := by simp [text]

theorem Expr.toList_text_binary (op : BinaryOp) (t : Token) (l r : Expr) :
    (binary op t l r).text.toList =
      '(' :: (l.text.toList ++ ' ' :: op.symbol :: ' ' :: (r.text.toList ++ [')'])) := by
  simp [text]

/-- An expression that is no operand is in brackets. -/
theorem Expr.exists_bracket {e : Expr} (hleaf : e.isLeaf = false) :
    ∃ w, e.text.toList = '(' :: w := by
  cases e with
  | negate t e => exact ⟨_, toList_text_negate t e⟩
  | binary op t l r => exact ⟨_, toList_text_binary op t l r⟩
  | _ => cases hleaf

namespace Expr.Legible

theorem operand_negate {t : Token} {e : Expr} (h : (negate t e).Legible) : e.Legible :=
  ⟨h.isRead.2, (List.forall_mem_cons.mp h.isLexeme).2, h.notInf⟩

theorem operands_binary {op : BinaryOp} {t : Token} {l r : Expr} (h : (binary op t l r).Legible) :
    l.Legible ∧ r.Legible := by
  obtain ⟨hleft, hrest⟩ := List.forall_mem_append.mp h.isLexeme
  obtain ⟨hleftFinite, hrightFinite⟩ := forall_literals_binary.mp h.notInf
  exact ⟨⟨h.isRead.2.1, hleft, hleftFinite⟩,
    ⟨h.isRead.2.2, (List.forall_mem_cons.mp hrest).2, hrightFinite⟩⟩

/-- **An operand shows what it is.** -/
theorem operand {e : Expr} (h : e.Legible) (hleaf : e.isLeaf = true) :
    ShowsOperand e.text.toList ∧ e.outline = ofOperand e.text.toList := by
  cases e with
  | integer l =>
    have hl := Literal.IsRead.prints_whole_of_isInf h.isRead (h.isLexeme _ List.mem_cons_self)
      (h.notInf l List.mem_cons_self)
    have hlexeme : IsLexeme (text (integer l)).toList .literalInt := hl.isLexeme
    have hdigits : (text (integer l)).toList.all Char.isDigit = true :=
      List.all_eq_true.mpr hlexeme.digits.2
    have hread : Numeral.read (text (integer l)) = .ok l.value := hl.read_eq
    refine ⟨hlexeme.showsOperand_whole, ?_⟩
    rw [ofOperand, if_pos hdigits, String.ofList_toList, hread, outline, Literal.outline, hl.kind_eq]
    rfl
  | real l =>
    obtain ⟨hshows, hread⟩ := Literal.IsRead.shows_real h.isRead (h.isLexeme _ List.mem_cons_self)
      (h.notInf l List.mem_cons_self)
    have hreads : ShowsReal (text (real l)).toList := hshows
    have hvalue : Numeral.read (text (real l)) = .ok l.value := hread
    have hdigits : ¬ (text (real l)).toList.all Char.isDigit = true := by
      obtain ⟨c, hc, hother⟩ := hreads.notWhole
      intro hall
      rw [List.all_eq_true.mp hall c hc] at hother
      cases hother
    have hhead : (text (real l)).toList.head?.any Char.isDigit = true := by
      obtain ⟨c, hc, hdigit⟩ := hreads.head
      rw [Option.mem_def.mp hc]
      exact hdigit
    refine ⟨hreads.showsOperand, ?_⟩
    rw [ofOperand, if_neg hdigits, if_pos hhead, String.ofList_toList, hvalue, outline,
      Literal.outline, h.isRead.1]
    rfl
  | name t =>
    have ht : t.IsName := Token.isName h.isRead (h.isLexeme t List.mem_cons_self)
    have hshows : ShowsOperand (text (name t)).toList := ht.showsOperand
    refine ⟨hshows, ?_⟩
    obtain ⟨c, cs, heq, hc, -⟩ := ht.letters
    have htext : (text (name t)).toList = c :: cs := heq
    have hletter : c.isDigit = false := by
      cases hdigit : c.isDigit with
      | false => rfl
      | true =>
        rw [not_isAlpha_of_isDigit hdigit] at hc
        cases hc
    have hname : ofOperand (text (name t)).toList =
        name (.sample .identifier (String.ofList (text (name t)).toList)) := by
      rw [ofOperand, htext]
      simp [hletter]
    rw [hname, String.ofList_toList, outline, Token.unplaced, ht.1]
    rfl
  | negate t e => cases hleaf
  | binary op t l r => cases hleaf

/-- A text does not start with a minus sign. -/
theorem append_ne_minus {e : Expr} (h : e.Legible) (u w : List Char) :
    e.text.toList ++ u ≠ '-' :: w := by
  cases hleaf : e.isLeaf with
  | true => exact (h.operand hleaf).1.append_ne (by decide) u w
  | false =>
    obtain ⟨v, hv⟩ := exists_bracket hleaf
    simp [hv]

/-- Behind its bracket a negation has a minus sign, and an operation has none. -/
theorem negate_append_ne {t t' : Token} {op : BinaryOp} {e l r : Expr} (h : l.Legible)
    (u v : List Char) :
    (negate t e).text.toList ++ u ≠ (binary op t' l r).text.toList ++ v := by
  intro heq
  have hrest : '-' :: (e.text.toList ++ ')' :: u) =
      l.text.toList ++ ' ' :: op.symbol :: ' ' :: (r.text.toList ++ ')' :: v) := by
    simpa [toList_text_negate, toList_text_binary] using heq
  exact h.append_ne_minus _ _ hrest.symm

/-- The sign of an operation is that of its operator. -/
theorem unplaced_binary {op : BinaryOp} {t : Token} {l r : Expr} (h : (binary op t l r).Legible) :
    t.unplaced = .sample op.kind (String.ofList [op.symbol]) := by
  have hnode : (Node.binary op t).Spelt := h.isRead.spelt h.isLexeme _ (by simp [postOrder])
  obtain ⟨htext, hkind⟩ := hnode
  rw [Token.unplaced, hkind, ← htext, String.ofList_toList]

theorem unplaced_negate {t : Token} {e : Expr} (h : (negate t e).Legible) :
    t.unplaced = .sample .additive "-" := by
  rw [Token.unplaced, h.isRead.1.1, h.isRead.1.2]

/-- An operand ends where its characters do. -/
theorem text_append_inj_of_isLeaf {e f : Expr} (he : e.Legible) (hf : f.Legible)
    (hleaf : e.isLeaf = true) {u v : List Char} (hu : ∀ c ∈ u.head?, isOperandChar c = false)
    (hv : ∀ c ∈ v.head?, isOperandChar c = false)
    (h : e.text.toList ++ u = f.text.toList ++ v) : e.outline = f.outline ∧ u = v := by
  obtain ⟨hshows, houtline⟩ := he.operand hleaf
  cases hleaf' : f.isLeaf with
  | true =>
    obtain ⟨hshows', houtline'⟩ := hf.operand hleaf'
    obtain ⟨htext, hrest⟩ := append_inj_of_forall hshows.chars hshows'.chars hu hv h
    exact ⟨by rw [houtline, houtline', htext], hrest⟩
  | false =>
    obtain ⟨w, hw⟩ := exists_bracket hleaf'
    rw [hw] at h
    exact absurd h (hshows.append_ne (by decide) u (w ++ v))

/-- **An expression and what follows it** are determined by the text of both, if what
follows starts with no character of an operand. -/
theorem text_append_inj {e f : Expr} (he : e.Legible) (hf : f.Legible) {u v : List Char}
    (hu : ∀ c ∈ u.head?, isOperandChar c = false) (hv : ∀ c ∈ v.head?, isOperandChar c = false)
    (h : e.text.toList ++ u = f.text.toList ++ v) : e.outline = f.outline ∧ u = v := by
  induction e generalizing f u v with
  | integer l => exact text_append_inj_of_isLeaf he hf rfl hu hv h
  | real l => exact text_append_inj_of_isLeaf he hf rfl hu hv h
  | name t => exact text_append_inj_of_isLeaf he hf rfl hu hv h
  | negate t e ih =>
    cases f with
    | negate t' f =>
      have hrest : e.text.toList ++ ')' :: u = f.text.toList ++ ')' :: v := by
        simpa [toList_text_negate] using h
      obtain ⟨houtline, hclosed⟩ := ih he.operand_negate hf.operand_negate
        (by simp [closing_not_isOperandChar]) (by simp [closing_not_isOperandChar]) hrest
      refine ⟨?_, (List.cons.inj hclosed).2⟩
      rw [outline, outline, houtline, he.unplaced_negate, hf.unplaced_negate]
    | binary op t' l r =>
      exact absurd h (negate_append_ne hf.operands_binary.1 u v)
    | _ =>
      obtain ⟨houtline, hrest⟩ := text_append_inj_of_isLeaf hf he rfl hv hu h.symm
      exact ⟨houtline.symm, hrest.symm⟩
  | binary op t l r ihl ihr =>
    cases f with
    | negate t' f =>
      exact absurd h.symm (negate_append_ne he.operands_binary.1 v u)
    | binary op' t' l' r' =>
      obtain ⟨hl, hr⟩ := he.operands_binary
      obtain ⟨hl', hr'⟩ := hf.operands_binary
      have hleft : l.text.toList ++ ' ' :: op.symbol :: ' ' :: (r.text.toList ++ ')' :: u) =
          l'.text.toList ++ ' ' :: op'.symbol :: ' ' :: (r'.text.toList ++ ')' :: v) := by
        simpa [toList_text_binary] using h
      obtain ⟨houtline, hsign⟩ := ihl hl hl' (by simp [blank_not_isOperandChar])
        (by simp [blank_not_isOperandChar]) hleft
      obtain ⟨hsymbol, hright⟩ := List.cons.inj (List.cons.inj hsign).2
      obtain ⟨houtline', hclosed⟩ := ihr hr hr' (by simp [closing_not_isOperandChar])
        (by simp [closing_not_isOperandChar]) (List.cons.inj hright).2
      obtain rfl := BinaryOp.symbol_injective hsymbol
      refine ⟨?_, (List.cons.inj hclosed).2⟩
      rw [outline, outline, houtline, houtline', he.unplaced_binary, hf.unplaced_binary]
    | _ =>
      obtain ⟨houtline, hrest⟩ := text_append_inj_of_isLeaf hf he rfl hv hu h.symm
      exact ⟨houtline.symm, hrest.symm⟩

end Expr.Legible

/-! ### Lists of words -/

/-- Texts without a character are told apart when it stands between them. -/
theorem intercalate_inj {sep : String} {c : Char} (hsep : sep.toList = [c]) {xs ys : List String}
    (hxs : ∀ x ∈ xs, c ∉ x.toList) (hys : ∀ y ∈ ys, c ∉ y.toList) (hx : xs ≠ []) (hy : ys ≠ [])
    (h : sep.intercalate xs = sep.intercalate ys) : xs = ys := by
  have hsplit : ∀ {zs : List String}, (∀ z ∈ zs, c ∉ z.toList) → zs ≠ [] →
      (sep.intercalate zs).toList.splitOn c = zs.map String.toList := by
    intro zs hzs hne
    rw [String.toList_intercalate, hsep]
    exact List.splitOn_intercalate c (by simpa using hzs) (by simpa using hne)
  have hlists : xs.map String.toList = ys.map String.toList := by
    rw [← hsplit hxs hx, h, hsplit hys hy]
  exact List.map_injective_iff.mpr (fun _ _ h => String.toList_injective h) hlists

/-! ### Definitions -/

namespace Definition

/-- The first word of a definition. -/
def firstWord : Definition → String
  | real _ _ => "real"
  | integer _ _ => "integer"

/-- The words after the first one. -/
def words : Definition → List String
  | real _ names => names.map Token.text
  | integer _ literals => literals.map Literal.text

theorem toList_text (d : Definition) :
    d.text.toList = d.firstWord.toList ++ ' ' :: (" ".intercalate d.words).toList := by
  cases d <;> simp [text, firstWord, words]

theorem showsOperand_firstWord (d : Definition) : ShowsOperand d.firstWord.toList := by
  cases d with
  | real _ _ => exact .of_letters IsKeyword.realWord.chars
  | integer _ _ => exact .of_letters IsKeyword.integerWord.chars

variable {d d' : Definition}

/-- What a definition lists are operands. -/
theorem Prints.words_spec (h : d.Prints) :
    d.words ≠ [] ∧ ∀ w ∈ d.words, ShowsOperand w.toList := by
  cases d with
  | real keyword names =>
    obtain ⟨-, hne, hnames⟩ := h
    exact ⟨by simpa [words] using hne, List.forall_mem_map.mpr fun t ht => (hnames t ht).showsOperand⟩
  | integer keyword literals =>
    obtain ⟨-, hne, hliterals⟩ := h
    exact ⟨by simpa [words] using hne,
      List.forall_mem_map.mpr fun l hl => (hliterals l hl).isLexeme.showsOperand_whole⟩

/-- Definitions with the same words have one outline. -/
theorem Prints.outline_eq (h : d.Prints) (h' : d'.Prints) (hfirst : d.firstWord = d'.firstWord)
    (hwords : d.words = d'.words) : d.outline = d'.outline := by
  cases d with
  | real keyword names =>
    cases d' with
    | real keyword' names' =>
      obtain ⟨⟨hkind, htext⟩, -, hnames⟩ := h
      obtain ⟨⟨hkind', htext'⟩, -, hnames'⟩ := h'
      have hkeyword : keyword.unplaced = keyword'.unplaced :=
        Token.unplaced_eq_iff.mpr ⟨hkind.trans hkind'.symm, htext.trans htext'.symm⟩
      have hlist : names.map Token.unplaced = names'.map Token.unplaced :=
        map_eq_map_of_forall (fun _ _ ht hu => ht.unplaced_eq hu) hnames hnames' hwords
      rw [outline, outline, hkeyword, hlist]
    | integer _ _ => exact absurd hfirst (by decide : "real" ≠ "integer")
  | integer keyword literals =>
    cases d' with
    | real _ _ => exact absurd hfirst (by decide : "integer" ≠ "real")
    | integer keyword' literals' =>
      obtain ⟨⟨hkind, htext⟩, -, hliterals⟩ := h
      obtain ⟨⟨hkind', htext'⟩, -, hliterals'⟩ := h'
      have hkeyword : keyword.unplaced = keyword'.unplaced :=
        Token.unplaced_eq_iff.mpr ⟨hkind.trans hkind'.symm, htext.trans htext'.symm⟩
      have hlist : literals.map Literal.outline = literals'.map Literal.outline :=
        map_eq_map_of_forall (fun _ _ hl hm => hl.outline_eq_of_text hm) hliterals hliterals' hwords
      rw [outline, outline, hkeyword, hlist]

/-- **A definition is determined by its text.** -/
theorem Prints.text_inj (h : d.Prints) (h' : d'.Prints) (htext : d.text = d'.text) :
    d.outline = d'.outline := by
  have hlists := congrArg String.toList htext
  rw [toList_text, toList_text] at hlists
  obtain ⟨hfirst, hrest⟩ := append_inj_of_forall d.showsOperand_firstWord.chars
    d'.showsOperand_firstWord.chars (by simp [blank_not_isOperandChar])
    (by simp [blank_not_isOperandChar]) hlists
  have hjoined := String.toList_injective (List.cons.inj hrest).2
  obtain ⟨hne, hshow⟩ := h.words_spec
  obtain ⟨hne', hshow'⟩ := h'.words_spec
  have hwords := intercalate_inj (c := ' ') rfl
    (fun w hw => (hshow w hw).not_mem blank_not_isOperandChar)
    (fun w hw => (hshow' w hw).not_mem blank_not_isOperandChar) hne hne' hjoined
  exact h.outline_eq h' (String.toList_injective hfirst) hwords

end Definition

/-! ### Assignments -/

/-- What the assignment shows is enough to tell it from others. -/
structure Assignment.Legible (a : Assignment) : Prop where
  label : ∀ l ∈ a.label, l.Prints .plain .literalInt
  target : a.target.IsName
  expr : a.expr.Legible

namespace Assignment

/-- The first word of an assignment: its label, or its target if it has none. -/
def firstWord (a : Assignment) : String :=
  match a.label with
  | some l => l.text
  | none => a.target.text

/-- The text after the target. -/
def rightSide (a : Assignment) : List Char := ' ' :: '=' :: ' ' :: a.expr.text.toList

/-- The text after the first word. -/
def afterFirstWord (a : Assignment) : List Char :=
  match a.label with
  | some _ => ':' :: ' ' :: (a.target.text.toList ++ a.rightSide)
  | none => a.rightSide

theorem toList_text (a : Assignment) :
    a.text.toList = a.firstWord.toList ++ a.afterFirstWord := by
  obtain ⟨label, target, e⟩ := a
  cases label <;> simp [text, firstWord, afterFirstWord, rightSide]

theorem head_afterFirstWord (a : Assignment) :
    ∀ c ∈ a.afterFirstWord.head?, isOperandChar c = false := by
  unfold afterFirstWord rightSide
  cases a.label <;> simp [isOperandChar]

variable {a b : Assignment}

theorem Legible.showsOperand_firstWord (h : a.Legible) : ShowsOperand a.firstWord.toList := by
  obtain ⟨label, target, e⟩ := a
  cases label with
  | none => exact h.target.showsOperand
  | some l => exact (h.label l rfl).isLexeme.showsOperand_whole

theorem Legible.rightSide_inj (ha : a.Legible) (hb : b.Legible) (h : a.rightSide = b.rightSide) :
    a.expr.outline = b.expr.outline := by
  have htexts := (List.cons.inj (List.cons.inj (List.cons.inj h).2).2).2
  exact (ha.expr.text_append_inj hb.expr (u := []) (v := []) (by simp) (by simp)
    (by simpa using htexts)).1

/-- **An assignment is determined by its text.** -/
theorem Legible.text_inj (ha : a.Legible) (hb : b.Legible) (htext : a.text = b.text) :
    a.outline = b.outline := by
  have hlists := congrArg String.toList htext
  rw [toList_text, toList_text] at hlists
  obtain ⟨hfirst, hrest⟩ := append_inj_of_forall ha.showsOperand_firstWord.chars
    hb.showsOperand_firstWord.chars a.head_afterFirstWord b.head_afterFirstWord hlists
  have hwords := String.toList_injective hfirst
  obtain ⟨label, target, e⟩ := a
  obtain ⟨label', target', e'⟩ := b
  cases label with
  | none =>
    cases label' with
    | none =>
      have htarget : target.unplaced = target'.unplaced := ha.target.unplaced_eq hb.target hwords
      have hexpr : e.outline = e'.outline := ha.rightSide_inj hb hrest
      rw [outline, outline, htarget, hexpr]
    | some l' => exact absurd (List.cons.inj hrest).1 (by decide)
  | some l =>
    cases label' with
    | none => exact absurd (List.cons.inj hrest).1 (by decide)
    | some l' =>
      have hlabel : l.outline = l'.outline :=
        (ha.label l rfl).outline_eq_of_text (hb.label l' rfl) hwords
      obtain ⟨hname, hright⟩ := append_inj_of_forall ha.target.showsOperand.chars
        hb.target.showsOperand.chars (by simp [rightSide, blank_not_isOperandChar])
        (by simp [rightSide, blank_not_isOperandChar]) (List.cons.inj (List.cons.inj hrest).2).2
      have htarget : target.unplaced = target'.unplaced :=
        ha.target.unplaced_eq hb.target (String.toList_injective hname)
      have hexpr : e.outline = e'.outline := ha.rightSide_inj hb hright
      rw [outline, outline, htarget, hexpr, Option.map_some, Option.map_some, hlabel]

end Assignment

/-! ### Lines -/

/-- A text that stands on one line. -/
def IsLine (line : String) : Prop := ∀ c ∈ line.toList, c ≠ '\n'

theorem ShowsOperand.ne_newline {x : List Char} (h : ShowsOperand x) : ∀ c ∈ x, c ≠ '\n' := by
  rintro c hc rfl
  exact h.not_mem (by decide) hc

theorem forall_mem_intercalate {s : List Char} {P : Char → Prop} (hs : ∀ c ∈ s, P c) :
    ∀ {ls : List (List Char)}, (∀ l ∈ ls, ∀ c ∈ l, P c) → ∀ c ∈ s.intercalate ls, P c
  | [], _ => by simp
  | [l], h => by simpa using h
  | l :: l' :: ls, h => by
    obtain ⟨hl, hls⟩ := List.forall_mem_cons.mp h
    rw [List.intercalate_cons_of_ne_nil (List.cons_ne_nil l' ls)]
    simp only [List.forall_mem_append]
    exact ⟨⟨hl, hs⟩, forall_mem_intercalate hs hls⟩

theorem Expr.Legible.isLine {e : Expr} (h : e.Legible) : IsLine e.text := by
  induction e with
  | integer l => exact (h.operand rfl).1.ne_newline
  | real l => exact (h.operand rfl).1.ne_newline
  | name t => exact (h.operand rfl).1.ne_newline
  | negate t e ih =>
    have hoperand : ∀ c ∈ e.text.toList, c ≠ '\n' := ih h.operand_negate
    simpa [IsLine, toList_text_negate, or_imp, forall_and] using hoperand
  | binary op t l r ihl ihr =>
    have hleft : ∀ c ∈ l.text.toList, c ≠ '\n' := ihl h.operands_binary.1
    have hright : ∀ c ∈ r.text.toList, c ≠ '\n' := ihr h.operands_binary.2
    have hsymbol : op.symbol ≠ '\n' := by cases op <;> decide
    simp only [IsLine, toList_text_binary, List.forall_mem_cons, List.forall_mem_append]
    exact ⟨by decide, hleft, by decide, hsymbol, by decide, hright, by decide, by simp⟩

theorem Definition.Prints.isLine {d : Definition} (h : d.Prints) : IsLine d.text := by
  have hwords : ∀ c ∈ (" ".intercalate d.words).toList, c ≠ '\n' := by
    rw [String.toList_intercalate]
    exact forall_mem_intercalate (by simp)
      (List.forall_mem_map.mpr fun w hw => (h.words_spec.2 w hw).ne_newline)
  rw [IsLine, toList_text, List.forall_mem_append, List.forall_mem_cons]
  exact ⟨d.showsOperand_firstWord.ne_newline, by decide, hwords⟩

theorem Assignment.Legible.isLine {a : Assignment} (h : a.Legible) : IsLine a.text := by
  have hright : ∀ c ∈ a.rightSide, c ≠ '\n' := by
    simp only [rightSide, List.forall_mem_cons]
    exact ⟨by decide, by decide, by decide, h.expr.isLine⟩
  have hafter : ∀ c ∈ a.afterFirstWord, c ≠ '\n' := by
    unfold afterFirstWord
    split
    · simp only [List.forall_mem_cons, List.forall_mem_append]
      exact ⟨by decide, by decide, h.target.showsOperand.ne_newline, hright⟩
    · exact hright
  rw [IsLine, toList_text, List.forall_mem_append]
  exact ⟨h.showsOperand_firstWord.ne_newline, hafter⟩

/-- The first word of the line is the keyword of a definition. -/
def isKeywordLine (line : String) : Bool :=
  (Kind.keyword? (String.ofList (line.toList.takeWhile isOperandChar))).isSome

theorem Definition.isKeywordLine_text (d : Definition) : isKeywordLine d.text = true := by
  rw [isKeywordLine, toList_text, takeWhile_append_eq d.showsOperand_firstWord.chars
    (by simp [blank_not_isOperandChar]), String.ofList_toList]
  cases d <;> rfl

/-- A label is no keyword, and neither is a name. -/
theorem Assignment.Legible.not_isKeywordLine {a : Assignment} (h : a.Legible) :
    isKeywordLine a.text = false := by
  rw [isKeywordLine, toList_text, takeWhile_append_eq h.showsOperand_firstWord.chars
    a.head_afterFirstWord, String.ofList_toList, Option.isSome_eq_false_iff, Option.isNone_iff_eq_none]
  obtain ⟨label, target, e⟩ := a
  cases label with
  | none => exact h.target.2.keyword?_eq_none (by decide)
  | some l => exact (h.label l rfl).isLexeme.keyword?_eq_none (by decide)

/-! ### Programs -/

/-- What the program shows is enough to tell it from others. -/
structure Program.Legible (p : Program) : Prop where
  definitions : ∀ d ∈ p.definitions, d.Prints
  assignments : ∀ a ∈ p.assignments, a.Legible

namespace Program

variable {p q : Program}

theorem Legible.isLine (h : p.Legible) : ∀ line ∈ p.lines, '\n' ∉ line.toList := by
  have hline : ∀ line ∈ p.lines, IsLine line := by
    simp only [lines, List.forall_mem_append, List.forall_mem_singleton, List.forall_mem_map]
    exact ⟨⟨⟨by simp [IsLine], fun d hd => (h.definitions d hd).isLine⟩,
      fun a ha => (h.assignments a ha).isLine⟩, by simp [IsLine]⟩
  exact fun line hmem hnewline => hline line hmem '\n' hnewline rfl

/-- **A program is determined by its text** but for places and spellings of numerals. -/
theorem Legible.text_inj (hp : p.Legible) (hq : q.Legible) (h : p.text = q.text) :
    p.outline = q.outline := by
  have hlines : p.lines = q.lines :=
    intercalate_inj (c := '\n') rfl hp.isLine hq.isLine (by simp [lines]) (by simp [lines]) h
  have hstatements : p.definitions.map Definition.text ++ p.assignments.map Assignment.text =
      q.definitions.map Definition.text ++ q.assignments.map Assignment.text := by
    have hfront := List.append_inj_left' hlines rfl
    simpa using hfront
  have hkeywords : ∀ {r : Program}, ∀ t ∈ r.definitions.map Definition.text,
      isKeywordLine t = true :=
    fun {r} => List.forall_mem_map.mpr fun d _ => d.isKeywordLine_text
  have hothers : ∀ {r : Program}, r.Legible → ∀ t ∈ (r.assignments.map Assignment.text).head?,
      isKeywordLine t = false := by
    intro r hr t ht
    obtain ⟨a, ha, rfl⟩ := List.mem_map.mp (List.mem_of_mem_head? ht)
    exact (hr.assignments a ha).not_isKeywordLine
  obtain ⟨hdefinitions, hassignments⟩ :=
    append_inj_of_forall hkeywords hkeywords (hothers hp) (hothers hq) hstatements
  rw [outline, outline,
    map_eq_map_of_forall (fun _ _ hd hd' => hd.text_inj hd') hp.definitions hq.definitions
      hdefinitions,
    map_eq_map_of_forall (fun _ _ ha hb => ha.text_inj hb) hp.assignments hq.assignments
      hassignments]

end Program

/-! ### Programs of texts -/

theorem Assignment.IsRead.legible {a : Assignment} (h : a.IsRead)
    (hlexeme : ∀ t ∈ a.tokens, IsLexeme t.text.toList t.kind)
    (hfinite : ∀ l ∈ a.integers ++ a.expr.reals, l.value.isInf = false) : a.Legible := by
  obtain ⟨hlabel, hrest⟩ := List.forall_mem_append.mp hlexeme
  obtain ⟨htarget, hexpr⟩ := List.forall_mem_cons.mp hrest
  obtain ⟨hintegers, hreals⟩ := List.forall_mem_append.mp hfinite
  obtain ⟨hlabelFinite, hexprFinite⟩ := List.forall_mem_append.mp hintegers
  refine ⟨fun l hl => ?_, Token.isName h.target htarget,
    ⟨h.expr, hexpr, List.forall_mem_append.mpr ⟨hexprFinite, hreals⟩⟩⟩
  have htoken : l.token ∈ (a.label.map Literal.token).toList :=
    Option.mem_toList.mpr (Option.mem_map_of_mem _ hl)
  exact (h.label l hl).prints_whole_of_isInf (hlabel _ htoken)
    (hlabelFinite l (Option.mem_toList.mpr hl))

/-- **What a program of a text shows tells it from others** if no value in it is
infinite. -/
theorem Program.legible_of_parse {source : String} {ts : List Token} {p : Program}
    (hts : tokenize source = .ok ts) (hp : parse ts = .ok p)
    (hfinite : ∀ l ∈ p.integers ++ p.reals, l.value.isInf = false) : p.Legible := by
  have hread := isRead_of_parse hp
  have hunsigned := (spelt_of_parse hts hp).unsigned
  have hlexeme : ∀ t ∈ p.tokens, IsLexeme t.text.toList t.kind :=
    fun t ht => isLexeme_of_parse hts hp ht
  obtain ⟨hdefinitions, hassignments⟩ := List.forall_mem_append.mp hlexeme
  refine ⟨fun d hd => ?_, fun a ha => ?_⟩
  · refine (hread.definitions d hd).prints
      (fun t ht => hdefinitions t (List.mem_flatMap_of_mem hd ht)) fun l hl => ?_
    have hmem : l ∈ p.integers ++ p.reals :=
      List.mem_append_left _ (List.mem_append_left _ (List.mem_flatMap_of_mem hd hl))
    exact isFinite_of_isInf (hunsigned l hmem).isNumber (hfinite l hmem)
  · refine (hread.assignments a ha).legible
      (fun t ht => hassignments t (List.mem_flatMap_of_mem ha ht)) fun l hl => hfinite l ?_
    rcases List.mem_append.mp hl with hl | hl
    · exact List.mem_append_left _ (List.mem_append_right _ (List.mem_flatMap_of_mem ha hl))
    · exact List.mem_append_right _ (List.mem_flatMap_of_mem ha hl)

/-- **The text tells programs apart.** Two programs of texts, without infinite values,
have the same text exactly if they agree but for the places of tokens and the spellings
of numerals: in their definitions, labels, targets, trees, operators and names, and in
the kinds and values of their numerals. -/
theorem text_eq_iff_outline_eq {source source' : String} {ts us : List Token} {p q : Program}
    (hts : tokenize source = .ok ts) (hp : parse ts = .ok p) (hus : tokenize source' = .ok us)
    (hq : parse us = .ok q) (hpFinite : ∀ l ∈ p.integers ++ p.reals, l.value.isInf = false)
    (hqFinite : ∀ l ∈ q.integers ++ q.reals, l.value.isInf = false) :
    p.text = q.text ↔ p.outline = q.outline := by
  constructor
  · exact (Program.legible_of_parse hts hp hpFinite).text_inj
      (Program.legible_of_parse hus hq hqFinite)
  · intro h
    rw [← p.text_outline, h, q.text_outline]

/-- Real numerals that are written with a power of ten and spelt differently, and a minus
sign that stands before one instead of after it. -/
theorem text_eq_iff_outline_eq_power :
    ∃ ts us vs p q r,
      (tokenize "begin\nx = 100000000000000000.0 - y\nend" = .ok ts ∧ parse ts = .ok p) ∧
      (tokenize "begin\nx=[0100000000000000000.00-y)\nend" = .ok us ∧ parse us = .ok q) ∧
      (tokenize "begin\nx = -100000000000000000.0\nend" = .ok vs ∧ parse vs = .ok r) ∧
      (∀ s ∈ [p, q, r], ∀ l ∈ s.integers ++ s.reals, l.value.isInf = false) ∧
      (p.text = "begin\nx = (1e17 - y)\nend" ∧ p.text = q.text ∧ p.outline = q.outline) ∧
      r.text = "begin\nx = (-1e17)\nend" ∧ p.text ≠ r.text ∧ p.outline ≠ r.outline := by
  have hread : ∀ source text : String, (readProgram source).toOption.any (fun p =>
      (p.integers ++ p.reals).all (fun l => !l.value.isInf) && p.text == text) = true →
      ∃ ts p, (tokenize source = .ok ts ∧ parse ts = .ok p) ∧
        (∀ l ∈ p.integers ++ p.reals, l.value.isInf = false) ∧ p.text = text := by
    intro source text h
    obtain ⟨ts, p, hp, htest⟩ := exists_of_any_readProgram source _ h
    rw [Bool.and_eq_true, List.all_eq_true, beq_iff_eq] at htest
    exact ⟨ts, p, hp, fun l hl => by simpa using htest.1 l hl, htest.2⟩
  obtain ⟨ts, p, hp, hpFinite, hptext⟩ := hread "begin\nx = 100000000000000000.0 - y\nend"
    "begin\nx = (1e17 - y)\nend" (by decide +kernel)
  obtain ⟨us, q, hq, hqFinite, hqtext⟩ := hread "begin\nx=[0100000000000000000.00-y)\nend"
    "begin\nx = (1e17 - y)\nend" (by decide +kernel)
  obtain ⟨vs, r, hr, hrFinite, hrtext⟩ := hread "begin\nx = -100000000000000000.0\nend"
    "begin\nx = (-1e17)\nend" (by decide +kernel)
  have hsame : p.text = q.text := hptext.trans hqtext.symm
  have hdiffer : p.text ≠ r.text := by
    rw [hptext, hrtext]
    decide
  refine ⟨ts, us, vs, p, q, r, hp, hq, hr, List.forall_mem_cons.mpr ⟨hpFinite,
    List.forall_mem_cons.mpr ⟨hqFinite, List.forall_mem_singleton.mpr hrFinite⟩⟩,
    ⟨hptext, hsame, ?_⟩, hrtext, hdiffer, ?_⟩
  · exact (text_eq_iff_outline_eq hp.1 hp.2 hq.1 hq.2 hpFinite hqFinite).mp hsame
  · exact fun h =>
      hdiffer ((text_eq_iff_outline_eq hp.1 hp.2 hr.1 hr.2 hpFinite hrFinite).mpr h)

end AssignLang
