/-
# Lexemes

The signs, the runs of digits with a point or without, and the words are the
lexemes. No text has two kinds, and the first character of a lexeme says which
of the three sorts it is. So the longest lexeme at the front of a text is found
by its first character and the run of digits, or of letters and digits, there.

Key definitions: `IsSign`, `IsKeyword`, `IsLexeme`, `StartsLexeme`, `Longest`.
Key theorems: `IsLexeme.kind_eq`, `Longest.sign`, `Longest.whole`,
`Longest.real`, `Longest.word`, `not_startsLexeme`.
-/
import AssignLang.Token.Lexeme
import AssignLang.Proofs.Runs

namespace AssignLang

/-- The signs and their kinds. -/
inductive IsSign : Char → Kind → Prop
  | newline : IsSign '\n' .newline
  | assign : IsSign '=' .assign
  | colon : IsSign ':' .colon
  | parenLeft : IsSign '(' .parenLeft
  | parenRight : IsSign ')' .parenRight
  | bracketLeft : IsSign '[' .bracketLeft
  | bracketRight : IsSign ']' .bracketRight
  | plus : IsSign '+' .additive
  | minus : IsSign '-' .additive
  | times : IsSign '*' .multiplicative
  | over : IsSign '/' .multiplicative
  | power : IsSign '^' .exponentiation

/-- The keywords and their kinds. -/
inductive IsKeyword : String → Kind → Prop
  | beginWord : IsKeyword "begin" .beginWord
  | endWord : IsKeyword "end" .endWord
  | realWord : IsKeyword "real" .realWord
  | integerWord : IsKeyword "integer" .integerWord

/-- The lexemes and their kinds. -/
inductive IsLexeme : List Char → Kind → Prop
  | sign {c : Char} {k : Kind} (h : IsSign c k) : IsLexeme [c] k
  | whole {ds : List Char} (hne : ds ≠ []) (hds : ∀ d ∈ ds, d.isDigit = true) :
      IsLexeme ds .literalInt
  /-- Digits must come before the point and may come after it. -/
  | real {ds es : List Char} (hne : ds ≠ []) (hds : ∀ d ∈ ds, d.isDigit = true)
      (hes : ∀ e ∈ es, e.isDigit = true) : IsLexeme (ds ++ '.' :: es) .literalReal
  | keyword {text : String} {k : Kind} (h : IsKeyword text k) : IsLexeme text.toList k
  | name {c : Char} {cs : List Char} (hc : c.isAlpha = true) (hcs : ∀ d ∈ cs, d.isAlphanum = true)
      (h : ∀ k, ¬ IsKeyword (String.ofList (c :: cs)) k) : IsLexeme (c :: cs) .identifier

/-- The kind of a word: a keyword's own, or a name. -/
def Kind.ofWord (cs : List Char) : Kind := (keyword? (String.ofList cs)).getD identifier

/-- Some lexeme is a beginning of the text. -/
def StartsLexeme (cs : List Char) : Prop := ∃ x k, IsLexeme x k ∧ x <+: cs

/-- The longest lexeme that is a beginning of the text, with its kind. -/
def Longest (cs x : List Char) (k : Kind) : Prop :=
  IsLexeme x k ∧ x <+: cs ∧ ∀ y j, IsLexeme y j ∧ y <+: cs → y.length ≤ x.length

/-! ### Characters -/

theorem not_isAlpha_of_isDigit {c : Char} (h : c.isDigit = true) : c.isAlpha = false := by
  have hdigit : (decide (c.val ≥ '0'.val) && decide (c.val ≤ '9'.val)) = true := h
  show (decide (c.val ≥ 'A'.val ∧ c.val ≤ 'Z'.val) ||
    (decide (c.val ≥ 'a'.val) && decide (c.val ≤ 'z'.val))) = false
  grind

theorem isSign_iff {c : Char} {k : Kind} : IsSign c k ↔ Kind.ofSign? c = some k := by
  constructor
  · intro h
    cases h <;> rfl
  · intro h
    rw [Kind.ofSign?_eq_some_iff] at h
    simp only [Kind.signs, List.mem_cons, Prod.mk.injEq, List.not_mem_nil, or_false] at h
    rcases h with ⟨rfl, rfl⟩ | ⟨rfl, rfl⟩ | ⟨rfl, rfl⟩ | ⟨rfl, rfl⟩ | ⟨rfl, rfl⟩ | ⟨rfl, rfl⟩ |
      ⟨rfl, rfl⟩ | ⟨rfl, rfl⟩ | ⟨rfl, rfl⟩ | ⟨rfl, rfl⟩ | ⟨rfl, rfl⟩ | ⟨rfl, rfl⟩ <;> constructor

theorem isKeyword_iff {text : String} {k : Kind} :
    IsKeyword text k ↔ Kind.keyword? text = some k := by
  constructor
  · intro h
    cases h <;> rfl
  · intro h
    rw [Kind.keyword?_eq_some_iff] at h
    simp only [Kind.keywords, List.mem_cons, Prod.mk.injEq, List.not_mem_nil, or_false] at h
    rcases h with ⟨rfl, rfl⟩ | ⟨rfl, rfl⟩ | ⟨rfl, rfl⟩ | ⟨rfl, rfl⟩ <;> constructor

/-- A sign is no digit, no letter and no blank. -/
theorem IsSign.char {c : Char} {k : Kind} (h : IsSign c k) :
    c.isDigit = false ∧ c.isAlpha = false ∧ isBlank c = false := by
  cases h <;> exact ⟨rfl, rfl, rfl⟩

/-- A name is a letter, letters and digits. -/
theorem exists_letters_of_isName {text : String} (h : isName text = true) :
    ∃ c cs, text.toList = c :: cs ∧ c.isAlpha = true ∧ ∀ d ∈ cs, d.isAlphanum = true := by
  unfold isName at h
  split at h
  · cases h
  · next c cs hcs =>
    rw [Bool.and_eq_true, List.all_eq_true] at h
    exact ⟨c, cs, hcs, h.1, h.2⟩

/-- A keyword is a letter and more letters. -/
theorem IsKeyword.chars {text : String} {k : Kind} (h : IsKeyword text k) :
    ∃ c cs, text.toList = c :: cs ∧ c.isAlpha = true ∧ ∀ d ∈ cs, d.isAlphanum = true :=
  exists_letters_of_isName (by cases h <;> rfl)

/-- The characters of words and numbers are no blanks. -/
theorem not_isBlank_of_isAlphanum {c : Char} (h : c.isAlphanum = true) : isBlank c = false := by
  cases hb : isBlank c with
  | false => rfl
  | true =>
    simp only [isBlank, Bool.or_eq_true, beq_iff_eq] at hb
    rcases hb with (rfl | rfl) | rfl <;> cases h

/-! ### What the first character decides -/

namespace IsLexeme

theorem ne_nil {x : List Char} {k : Kind} (h : IsLexeme x k) : x ≠ [] := by
  cases h with
  | sign h => simp
  | whole hne hds => exact hne
  | real hne hds hes => simp
  | keyword h =>
    obtain ⟨c, cs, hx, -⟩ := h.chars
    simp [hx]
  | name hc hcs h => simp

/-- A lexeme is a sign, a number or a word, and its first character says which. -/
theorem sign_or_number_or_word {c : Char} {cs : List Char} {k : Kind} (h : IsLexeme (c :: cs) k) :
    (IsSign c k ∧ cs = []) ∨
    (c.isDigit = true ∧
      (((∀ d ∈ c :: cs, d.isDigit = true) ∧ k = .literalInt) ∨
        ∃ ds es, c :: cs = ds ++ '.' :: es ∧ ds ≠ [] ∧ (∀ d ∈ ds, d.isDigit = true) ∧
          (∀ e ∈ es, e.isDigit = true) ∧ k = .literalReal)) ∨
    (c.isAlpha = true ∧ (∀ d ∈ cs, d.isAlphanum = true) ∧ k = Kind.ofWord (c :: cs)) := by
  generalize hx : c :: cs = x at h
  cases h with
  | sign h =>
    obtain ⟨rfl, rfl⟩ := List.cons.inj hx
    exact .inl ⟨h, rfl⟩
  | whole hne hds =>
    subst hx
    exact .inr (.inl ⟨hds c List.mem_cons_self, .inl ⟨hds, rfl⟩⟩)
  | @real ds es hne hds hes =>
    refine .inr (.inl ⟨?_, .inr ⟨ds, es, rfl, hne, hds, hes, rfl⟩⟩)
    cases ds with
    | nil => exact absurd rfl hne
    | cons d ds =>
      obtain ⟨rfl, -⟩ := List.cons.inj hx
      exact hds c List.mem_cons_self
  | @keyword text _ h =>
    obtain ⟨d, ds, htext, hd, hds⟩ := h.chars
    obtain ⟨rfl, rfl⟩ := List.cons.inj (hx.trans htext)
    refine .inr (.inr ⟨hd, hds, ?_⟩)
    have hlookup := isKeyword_iff.mp h
    rw [Kind.ofWord, String.ofList_toList, hlookup]
    rfl
  | name hc hcs h =>
    obtain ⟨rfl, rfl⟩ := List.cons.inj hx
    refine .inr (.inr ⟨hc, hcs, ?_⟩)
    cases hk : Kind.keyword? (String.ofList (c :: cs)) with
    | none => rw [Kind.ofWord, hk]; rfl
    | some k => exact absurd (isKeyword_iff.mpr hk) (h k)

/-- A run of digits holds no point. -/
theorem ne_append_point {x ds es : List Char} (hx : ∀ d ∈ x, d.isDigit = true) :
    x ≠ ds ++ '.' :: es := by
  rintro rfl
  have hpoint := hx '.' (by simp)
  cases hpoint

/-- **No text has two kinds.** -/
theorem kind_eq {x : List Char} {k j : Kind} (hk : IsLexeme x k) (hj : IsLexeme x j) : k = j := by
  cases x with
  | nil => exact absurd rfl hk.ne_nil
  | cons c cs =>
    rcases hk.sign_or_number_or_word with ⟨hs, -⟩ | ⟨hd, hn⟩ | ⟨ha, -, hw⟩ <;>
      rcases hj.sign_or_number_or_word with ⟨hs', -⟩ | ⟨hd', hn'⟩ | ⟨ha', -, hw'⟩
    · rw [isSign_iff] at hs hs'
      exact Option.some.inj (hs.symm.trans hs')
    · simp [hs.char.1] at hd'
    · simp [hs.char.2.1] at ha'
    · simp [hs'.char.1] at hd
    · rcases hn with ⟨hds, rfl⟩ | ⟨ds, es, hx, -, -, -, rfl⟩ <;>
        rcases hn' with ⟨hds', rfl⟩ | ⟨ds', es', hx', -, -, -, rfl⟩
      · rfl
      · exact absurd hx' (ne_append_point hds)
      · exact absurd hx (ne_append_point hds')
      · rfl
    · simp [not_isAlpha_of_isDigit hd] at ha'
    · simp [hs'.char.2.1] at ha
    · simp [not_isAlpha_of_isDigit hd'] at ha
    · rw [hw, hw']

/-- **A sign stands alone.** Only digits, letters and the point of a number are part of
longer lexemes. -/
theorem eq_sign_of_mem {x : List Char} {k : Kind} {c : Char} (h : IsLexeme x k) (hc : c ∈ x)
    (hword : c.isAlphanum = false) (hpoint : c ≠ '.') : x = [c] ∧ IsSign c k := by
  have hdigit : c.isDigit ≠ true := by
    intro hd
    simp [Char.isAlphanum, hd] at hword
  have hnot : ¬ c.isAlphanum = true := by simp [hword]
  cases h with
  | sign h =>
    obtain rfl := List.mem_singleton.mp hc
    exact ⟨rfl, h⟩
  | whole hne hds => exact absurd (hds c hc) hdigit
  | real hne hds hes =>
    rcases List.mem_append.mp hc with hc | hc
    · exact absurd (hds c hc) hdigit
    · rcases List.mem_cons.mp hc with hc | hc
      · exact absurd hc hpoint
      · exact absurd (hes c hc) hdigit
  | keyword h =>
    obtain ⟨d, ds, htext, hd, hds⟩ := h.chars
    rw [htext] at hc
    rcases List.mem_cons.mp hc with rfl | hc
    · exact absurd (by simp [Char.isAlphanum, hd]) hnot
    · exact absurd (hds c hc) hnot
  | name hd hds h =>
    rcases List.mem_cons.mp hc with rfl | hc
    · exact absurd (by simp [Char.isAlphanum, hd]) hnot
    · exact absurd (hds c hc) hnot

/-- No character of a lexeme is a blank. -/
theorem not_isBlank {x : List Char} {k : Kind} (h : IsLexeme x k) :
    ∀ d ∈ x, isBlank d = false := by
  intro d hd
  by_cases hword : d.isAlphanum = true
  · exact not_isBlank_of_isAlphanum hword
  · by_cases hpoint : d = '.'
    · rw [hpoint]
      rfl
    · exact (h.eq_sign_of_mem hd (by simpa using hword) hpoint).2.char.2.2

/-- No lexeme is the end of the text. -/
theorem kind_ne_eof {x : List Char} {k : Kind} (h : IsLexeme x k) : k ≠ .eof := by
  cases h with
  | sign h => cases h <;> simp
  | whole hne hds => simp
  | real hne hds hes => simp
  | keyword h => cases h <;> simp
  | name hc hcs h => simp

/-- Only the keyword itself has its kind. -/
theorem eq_keyword {text : String} {x : List Char} {k : Kind} (hx : IsLexeme x k)
    (h : IsKeyword text k) : x = text.toList := by
  cases hx with
  | sign hs => cases hs <;> cases h
  | whole hne hds => cases h
  | real hne hds hes => cases h
  | keyword h' => cases h' <;> cases h <;> rfl
  | name hc hcs hname => cases h

/-- What is no keyword among the words is a name. -/
theorem isName {x : List Char} (h : IsLexeme x .identifier) : isName (String.ofList x) = true := by
  generalize hk : Kind.identifier = k at h
  cases h with
  | sign h => cases h <;> cases hk
  | whole hne hds => cases hk
  | real hne hds hes => cases hk
  | keyword h => cases h <;> cases hk
  | name hc hcs h =>
    rw [AssignLang.isName, String.toList_ofList]
    simpa [hc] using hcs

end IsLexeme

/-! ### The longest lexeme is taken -/

/-- A lexeme at the front of a text starts with the first character of it. -/
theorem IsLexeme.exists_eq_cons {x : List Char} {k : Kind} (hx : IsLexeme x k) {c : Char}
    {cs : List Char} (h : x <+: c :: cs) : ∃ u, x = c :: u := by
  obtain ⟨v, hv⟩ := h
  cases x with
  | nil => exact absurd rfl hx.ne_nil
  | cons d u =>
    obtain ⟨rfl, -⟩ := List.cons.inj hv
    exact ⟨u, rfl⟩

/-- The lexemes at the front of a text that starts with digits. -/
theorem IsLexeme.number_of_digits {y ds u : List Char} {k : Kind} (hy : IsLexeme y k)
    (hne : ds ≠ []) (hds : ∀ d ∈ ds, d.isDigit = true) (hu : ∀ d ∈ u.head?, d.isDigit = false)
    (hpre : y <+: ds ++ u) :
    y <+: ds ∨ ∃ es, y = ds ++ '.' :: es ∧ (∀ e ∈ es, e.isDigit = true) ∧ '.' :: es <+: u := by
  cases ds with
  | nil => exact absurd rfl hne
  | cons c ds =>
    obtain ⟨w, rfl⟩ := hy.exists_eq_cons hpre
    have hc := hds c List.mem_cons_self
    rcases hy.sign_or_number_or_word with ⟨hs, -⟩ | ⟨-, hn⟩ | ⟨ha, -⟩
    · simp [hs.char.1] at hc
    · rcases hn with ⟨hw, -⟩ | ⟨ds', es, hsplit, -, hds', hes, -⟩
      · refine .inl (List.prefix_of_prefix_length_le hpre (List.prefix_append _ u) ?_)
        have hle := length_le_takeWhile hw hpre
        rwa [takeWhile_append_eq hds hu] at hle
      · obtain ⟨v, hv⟩ := hpre
        have hpoint : ∀ d ∈ ('.' :: (es ++ v)).head?, d.isDigit = false := by simp
        have heq : ds' ++ '.' :: (es ++ v) = c :: ds ++ u := by rw [← hv, hsplit]; simp
        obtain ⟨rfl, rfl⟩ := append_inj_of_forall hds' hds hpoint hu heq
        exact .inr ⟨es, hsplit, hes, List.prefix_append ('.' :: es) v⟩
    · simp [not_isAlpha_of_isDigit hc] at ha

namespace Longest

theorem lt_length {cs x : List Char} {k : Kind} {m : Nat} (h : Longest (cs.drop m) x k) :
    m < cs.length := by
  have hpos := List.length_pos_iff.mpr h.1.ne_nil
  have hle := h.2.1.length_le
  rw [List.length_drop] at hle
  omega

theorem sign {c : Char} {k : Kind} (hk : IsSign c k) (cs : List Char) :
    Longest (c :: cs) [c] k := by
  refine ⟨.sign hk, ⟨cs, rfl⟩, ?_⟩
  rintro y j ⟨hy, hpre⟩
  obtain ⟨u, rfl⟩ := hy.exists_eq_cons hpre
  obtain ⟨hd, ha, -⟩ := hk.char
  rcases hy.sign_or_number_or_word with ⟨-, rfl⟩ | ⟨hd', -⟩ | ⟨ha', -⟩
  · exact Nat.le_refl 1
  · simp [hd] at hd'
  · simp [ha] at ha'

/-- A word goes on as long as letters and digits come. -/
theorem word {c : Char} (hc : c.isAlpha = true) (cs : List Char) :
    Longest (c :: cs) (c :: cs.takeWhile Char.isAlphanum)
      (Kind.ofWord (c :: cs.takeWhile Char.isAlphanum)) := by
  have htail : ∀ d ∈ cs.takeWhile Char.isAlphanum, d.isAlphanum = true :=
    fun d hd => of_mem_takeWhile hd
  refine ⟨?_, List.cons_prefix_cons.mpr ⟨rfl, List.takeWhile_prefix _⟩, ?_⟩
  · rw [Kind.ofWord]
    cases hk : Kind.keyword? (String.ofList (c :: cs.takeWhile Char.isAlphanum)) with
    | none =>
      refine .name hc htail fun k hmem => ?_
      rw [isKeyword_iff.mp hmem] at hk
      cases hk
    | some k => simpa using IsLexeme.keyword (isKeyword_iff.mpr hk)
  · rintro y j ⟨hy, hpre⟩
    obtain ⟨u, rfl⟩ := hy.exists_eq_cons hpre
    rcases hy.sign_or_number_or_word with ⟨hs, -⟩ | ⟨hd, -⟩ | ⟨-, hu, -⟩
    · simp [hs.char.2.1] at hc
    · simp [not_isAlpha_of_isDigit hd] at hc
    · have hle := length_le_takeWhile hu (List.cons_prefix_cons.mp hpre).2
      rw [List.length_cons, List.length_cons]
      omega

/-- A point after the digits belongs to the number, with the digits after it. -/
theorem real {ds : List Char} (hne : ds ≠ []) (hds : ∀ d ∈ ds, d.isDigit = true) (cs : List Char) :
    Longest (ds ++ '.' :: cs) (ds ++ '.' :: cs.takeWhile Char.isDigit) .literalReal := by
  have htail : ∀ e ∈ cs.takeWhile Char.isDigit, e.isDigit = true := fun e he => of_mem_takeWhile he
  refine ⟨.real hne hds htail, ?_, ?_⟩
  · rw [List.prefix_append_right_inj, List.cons_prefix_cons]
    exact ⟨rfl, List.takeWhile_prefix _⟩
  · rintro y j ⟨hy, hpre⟩
    rcases hy.number_of_digits hne hds (by simp) hpre with hle | ⟨es, rfl, hes, hpoint⟩
    · have hlen := hle.length_le
      rw [List.length_append]
      omega
    · have hle := length_le_takeWhile hes (List.cons_prefix_cons.mp hpoint).2
      simp only [List.length_append, List.length_cons]
      omega

/-- Digits that no digit and no point follows are a number. -/
theorem whole {ds u : List Char} (hne : ds ≠ []) (hds : ∀ d ∈ ds, d.isDigit = true)
    (hu : ∀ d ∈ u.head?, d.isDigit = false ∧ d ≠ '.') : Longest (ds ++ u) ds .literalInt := by
  refine ⟨.whole hne hds, List.prefix_append ds u, ?_⟩
  rintro y j ⟨hy, hpre⟩
  rcases hy.number_of_digits hne hds (fun d hd => (hu d hd).1) hpre with hle | ⟨es, -, -, hpoint⟩
  · exact hle.length_le
  · obtain ⟨v, rfl⟩ := hpoint
    exact absurd rfl (hu '.' rfl).2

end Longest

theorem not_startsLexeme_nil : ¬ StartsLexeme [] := by
  rintro ⟨x, k, hx, hpre⟩
  exact hx.ne_nil (List.prefix_nil.mp hpre)

/-- A character that is no sign, no digit and no letter starts no lexeme. -/
theorem not_startsLexeme {c : Char} (hs : Kind.ofSign? c = none) (hd : c.isDigit = false)
    (ha : c.isAlpha = false) (cs : List Char) : ¬ StartsLexeme (c :: cs) := by
  rintro ⟨y, k, hy, hpre⟩
  obtain ⟨u, rfl⟩ := hy.exists_eq_cons hpre
  rcases hy.sign_or_number_or_word with ⟨hs', -⟩ | ⟨hd', -⟩ | ⟨ha', -⟩
  · rw [isSign_iff.mp hs'] at hs
    cases hs
  · simp [hd] at hd'
  · simp [ha] at ha'

end AssignLang
