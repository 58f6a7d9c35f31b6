/-
# Round and square brackets

A bracket is a lexeme by itself and part of no other, and a round bracket takes as
much room as a square one. So a text with round brackets in the place of its square
ones is read alike: the results stand at the same places, and of the tokens only the
square brackets are others (`Run.roundForm`). Texts in which one has a round bracket
where the other has a square one become the same text in this way, so they have the
same tokens but for the forms of the brackets, or the same diagnostic.

Key definitions: `SameButForm`, `roundChar`, `Token.roundForm`.
Key theorems: `IsLexeme.roundForm_cases`, `Longest.roundForm`, `Call.roundForm`,
`Run.roundForm`, `tokenize_roundForm`, `tokenize_sameButForm`.
-/
import AssignLang.Proofs.Lexing.Seam
import Mathlib.Data.List.Forall2

namespace AssignLang

/-! ### Forms of brackets -/

/-- The characters are the same, or brackets that both open or both close. -/
def SameButForm (c d : Char) : Prop :=
  c = d ∨ (c ∈ ['(', '['] ∧ d ∈ ['(', '[']) ∨ (c ∈ [')', ']'] ∧ d ∈ [')', ']'])

instance : DecidableRel SameButForm := fun c d =>
  inferInstanceAs (Decidable (c = d ∨ (c ∈ ['(', '['] ∧ d ∈ ['(', '[']) ∨
    (c ∈ [')', ']'] ∧ d ∈ [')', ']'])))

/-- The character, but round if it is a square bracket. -/
def roundChar (c : Char) : Char :=
  if c = '[' then '(' else if c = ']' then ')' else c

/-- The kind, but that of a round bracket if it is that of a square one. -/
def Kind.roundForm : Kind → Kind
  | bracketLeft => parenLeft
  | bracketRight => parenRight
  | k => k

/-- The token, but a round bracket if it is a square one. -/
def Token.roundForm (t : Token) : Token :=
  match t.kind with
  | .bracketLeft => { t with kind := .parenLeft, text := "(" }
  | .bracketRight => { t with kind := .parenRight, text := ")" }
  | _ => t

theorem roundChar_eq_self {c : Char} (hleft : c ≠ '[') (hright : c ≠ ']') : roundChar c = c := by
  rw [roundChar, if_neg hleft, if_neg hright]

theorem map_roundChar_eq_self {u : List Char} (hleft : '[' ∉ u) (hright : ']' ∉ u) :
    u.map roundChar = u := by
  have hself : ∀ c ∈ u, roundChar c = c := by
    intro c hc
    apply roundChar_eq_self
    · rintro rfl
      exact hleft hc
    · rintro rfl
      exact hright hc
  exact (List.map_congr_left hself).trans (List.map_id u)

/-- Characters that are the same but for the form of a bracket become the same. -/
theorem SameButForm.roundChar_eq {c d : Char} (h : SameButForm c d) : roundChar c = roundChar d := by
  simp only [SameButForm, List.mem_cons, List.not_mem_nil, or_false] at h
  rcases h with rfl | ⟨rfl | rfl, rfl | rfl⟩ | ⟨rfl | rfl, rfl | rfl⟩ <;> rfl

theorem map_roundChar_eq {u v : List Char} (h : List.Forall₂ SameButForm u v) :
    u.map roundChar = v.map roundChar := by
  induction h with
  | nil => rfl
  | cons hc hrest ih => rw [List.map_cons, List.map_cons, hc.roundChar_eq, ih]

/-- What is the same of both forms of brackets is the same of all characters. -/
theorem congr_roundChar {α : Type} {f : Char → α} (hleft : f '(' = f '[') (hright : f ')' = f ']')
    (c : Char) : f (roundChar c) = f c := by
  unfold roundChar
  split
  · next h => rw [h, hleft]
  · split
    · next h => rw [h, hright]
    · rfl

theorem isBlank_roundChar (c : Char) : isBlank (roundChar c) = isBlank c :=
  congr_roundChar rfl rfl c

/-- Brackets of both forms take one column. -/
theorem Position.after_roundChar (p : Position) (c : Char) : p.after (roundChar c) = p.after c :=
  congr_roundChar rfl rfl c

theorem positionAt_roundChar (cs : List Char) (n : Nat) :
    positionAt (cs.map roundChar) n = positionAt cs n := by
  simp only [positionAt, Position.afterChars, ← List.map_take, List.foldl_map,
    Position.after_roundChar]

theorem Kind.roundForm_eq_self {k : Kind} (hleft : k ≠ .bracketLeft) (hright : k ≠ .bracketRight) :
    k.roundForm = k := by
  unfold Kind.roundForm
  split
  · exact absurd rfl hleft
  · exact absurd rfl hright
  · rfl

theorem Token.roundForm_eq_self {t : Token} (hleft : t.kind ≠ .bracketLeft)
    (hright : t.kind ≠ .bracketRight) : t.roundForm = t := by
  unfold Token.roundForm
  split
  · next h => exact absurd h hleft
  · next h => exact absurd h hright
  · rfl

/-- A token is a square bracket, or it stays as it is. -/
theorem Token.roundForm_cases (t : Token) :
    (t.kind = .bracketLeft ∧ t.roundForm.kind = .parenLeft) ∨
      (t.kind = .bracketRight ∧ t.roundForm.kind = .parenRight) ∨ t.roundForm = t := by
  unfold Token.roundForm
  split
  · next h => exact .inl ⟨h, rfl⟩
  · next h => exact .inr (.inl ⟨h, rfl⟩)
  · exact .inr (.inr rfl)

/-- Line feeds and the end of the text stay what they are. -/
theorem Token.roundForm_kind_iff (t : Token) :
    (t.roundForm.kind = .newline ↔ t.kind = .newline) ∧
      (t.roundForm.kind = .eof ↔ t.kind = .eof) := by
  rcases t.roundForm_cases with ⟨h, h'⟩ | ⟨h, h'⟩ | h
  · simp [h, h']
  · simp [h, h']
  · simp [h]

/-! ### Lexemes -/

section
variable {x cs : List Char} {k : Kind}

/-- A lexeme is a square bracket, or it stays as it is. -/
theorem IsLexeme.roundForm_cases (h : IsLexeme x k) :
    (x = ['['] ∧ k = .bracketLeft) ∨ (x = [']'] ∧ k = .bracketRight) ∨
      (x.map roundChar = x ∧ k ≠ .bracketLeft ∧ k ≠ .bracketRight) := by
  by_cases hleft : '[' ∈ x
  · obtain ⟨rfl, hk⟩ := h.eq_sign_of_mem hleft rfl (by decide)
    cases hk
    exact .inl ⟨rfl, rfl⟩
  · by_cases hright : ']' ∈ x
    · obtain ⟨rfl, hk⟩ := h.eq_sign_of_mem hright rfl (by decide)
      cases hk
      exact .inr (.inl ⟨rfl, rfl⟩)
    · refine .inr (.inr ⟨?_, ?_, ?_⟩)
      · exact map_roundChar_eq_self hleft hright
      · rintro rfl
        cases h with
        | sign hs => cases hs; simp at hleft
        | keyword hw => cases hw
      · rintro rfl
        cases h with
        | sign hs => cases hs; simp at hright
        | keyword hw => cases hw

theorem IsLexeme.roundForm (h : IsLexeme x k) :
    IsLexeme (x.map roundChar) k.roundForm := by
  rcases h.roundForm_cases with ⟨rfl, rfl⟩ | ⟨rfl, rfl⟩ | ⟨hx, hleft, hright⟩
  · exact .sign .parenLeft
  · exact .sign .parenRight
  · rwa [hx, Kind.roundForm_eq_self hleft hright]

/-- What becomes a lexeme is one. -/
theorem IsLexeme.of_roundForm (h : IsLexeme (x.map roundChar) k) : ∃ j, IsLexeme x j := by
  by_cases hleft : '[' ∈ x
  · have hmem : '(' ∈ x.map roundChar := List.mem_map.mpr ⟨'[', hleft, rfl⟩
    obtain ⟨hx, -⟩ := h.eq_sign_of_mem hmem rfl (by decide)
    obtain ⟨c, rfl, -⟩ := List.map_eq_singleton_iff.mp hx
    obtain rfl := List.mem_singleton.mp hleft
    exact ⟨_, .sign .bracketLeft⟩
  · by_cases hright : ']' ∈ x
    · have hmem : ')' ∈ x.map roundChar := List.mem_map.mpr ⟨']', hright, rfl⟩
      obtain ⟨hx, -⟩ := h.eq_sign_of_mem hmem rfl (by decide)
      obtain ⟨c, rfl, -⟩ := List.map_eq_singleton_iff.mp hx
      obtain rfl := List.mem_singleton.mp hright
      exact ⟨_, .sign .bracketRight⟩
    · rw [map_roundChar_eq_self hleft hright] at h
      exact ⟨k, h⟩

theorem startsLexeme_roundForm_iff : StartsLexeme (cs.map roundChar) ↔ StartsLexeme cs := by
  constructor
  · rintro ⟨y, k, hy, hpre⟩
    obtain ⟨x, hx, rfl⟩ := List.prefix_map_iff.mp hpre
    obtain ⟨j, hj⟩ := hy.of_roundForm
    exact ⟨x, j, hj, hx⟩
  · rintro ⟨x, k, hx, hpre⟩
    exact ⟨x.map roundChar, k.roundForm, hx.roundForm, hpre.map roundChar⟩

/-- The longest lexeme is as long as before. -/
theorem Longest.roundForm (h : Longest cs x k) :
    Longest (cs.map roundChar) (x.map roundChar) k.roundForm := by
  refine ⟨h.1.roundForm, h.2.1.map roundChar, ?_⟩
  rintro y j ⟨hy, hpre⟩
  obtain ⟨z, hz, rfl⟩ := List.prefix_map_iff.mp hpre
  obtain ⟨i, hi⟩ := hy.of_roundForm
  rw [List.length_map, List.length_map]
  exact h.2.2 z i ⟨hi, hz⟩

/-- The token of a lexeme becomes that of the lexeme it becomes. -/
theorem IsLexeme.token_roundForm (h : IsLexeme x k) (span : Span) (start : Position)
    (spaceBefore : Bool) : Token.roundForm ⟨k, String.ofList x, span, start, spaceBefore⟩ =
      ⟨k.roundForm, String.ofList (x.map roundChar), span, start, spaceBefore⟩ := by
  rcases h.roundForm_cases with ⟨rfl, rfl⟩ | ⟨rfl, rfl⟩ | ⟨hx, hleft, hright⟩
  · rfl
  · rfl
  · rw [Token.roundForm_eq_self hleft hright, hx, Kind.roundForm_eq_self hleft hright]

end

/-! ### Calls -/

section
variable {cs : List Char} {n m j : Nat}

theorem Gap.roundForm (h : Gap cs n m) : Gap (cs.map roundChar) n m := by
  have hget : ∀ {i : Nat} {c : Char}, (cs.map roundChar)[i]? = some c →
      ∃ d, cs[i]? = some d ∧ isBlank c = isBlank d := by
    intro i c hc
    rw [List.getElem?_map] at hc
    obtain ⟨d, hd, rfl⟩ := Option.map_eq_some_iff.mp hc
    exact ⟨d, hd, isBlank_roundChar d⟩
  refine ⟨h.le, by simpa using h.le_length, ?_, ?_⟩
  · intro i c hi hc
    obtain ⟨d, hd, heq⟩ := hget hc
    rw [heq]
    exact h.blank i d hi hd
  · intro c hc
    obtain ⟨d, hd, heq⟩ := hget hc
    rw [heq]
    exact h.stop d hd

/-- A character that starts no lexeme is no bracket. -/
theorem roundChar_eq_self_of_not_startsLexeme {c : Char} (hc : cs[m]? = some c)
    (hnone : ¬ StartsLexeme (cs.drop m)) : roundChar c = c := by
  have hsign : ∀ {d : Char} {k : Kind}, IsSign d k → c ≠ d := by
    rintro d k hd rfl
    rw [drop_of_getElem? hc] at hnone
    exact hnone (Longest.sign hd _).startsLexeme
  exact roundChar_eq_self (hsign .bracketLeft) (hsign .bracketRight)

/-- **A call on the text with round brackets** returns the same, but for a square
bracket. -/
theorem Call.roundForm {r : Except Diagnostic Token} (h : Call cs n r j) :
    Call (cs.map roundChar) n (r.map Token.roundForm) j := by
  cases h with
  | finish hgap =>
    have hround : Gap (cs.map roundChar) n (cs.map roundChar).length := by
      simpa using hgap.roundForm
    have hcall := Call.finish hround
    rw [endOf, List.length_map, positionAt_roundChar] at hcall
    exact hcall
  | @token m x k hgap hx =>
    have hlongest := hx.roundForm
    rw [List.map_drop] at hlongest
    have hcall := Call.token hgap.roundForm hlongest
    rw [List.length_map, positionAt_roundChar, ← hx.1.token_roundForm] at hcall
    exact hcall
  | @unexpected m c hgap hc hnone =>
    have hc' : (cs.map roundChar)[m]? = some c := by
      rw [List.getElem?_map, hc, Option.map_some, roundChar_eq_self_of_not_startsLexeme hc hnone]
    have hcall := Call.unexpected hgap.roundForm hc'
      (by rwa [← List.map_drop, startsLexeme_roundForm_iff])
    rw [positionAt_roundChar] at hcall
    exact hcall

theorem isEnd_roundForm (r : Except Diagnostic Token) :
    Lexer.isEnd (r.map Token.roundForm) = Lexer.isEnd r := by
  cases r with
  | error d => rfl
  | ok t =>
    rw [Bool.eq_iff_iff]
    simpa [Lexer.isEnd, Except.map] using t.roundForm_kind_iff.2

/-- **Calls up to the end** return the same on the text with round brackets, but for the
square brackets. -/
theorem Run.roundForm {rs : List (Except Diagnostic Token)} (h : Run cs n rs) :
    Run (cs.map roundChar) n (rs.map (Except.map Token.roundForm)) := by
  induction h with
  | last hcall hr => exact .last hcall.roundForm (by rwa [isEnd_roundForm])
  | cons hcall hr hrs ih => exact .cons hcall.roundForm (by rwa [isEnd_roundForm]) ih

end

/-! ### Whole texts -/

/-- The results on a text with round brackets. -/
theorem results_roundForm (s : String) :
    (Lexer.ofString (String.ofList (s.toList.map roundChar))).results =
      (Lexer.ofString s).results.map (Except.map Token.roundForm) := by
  have hround := (Lexer.at_ofString (String.ofList (s.toList.map roundChar))).run_results
  rw [String.toList_ofList] at hround
  exact hround.eq (Lexer.at_ofString s).run_results.roundForm

/-- **The tokens of a text with round brackets** are the same, but for the square
brackets among them. -/
theorem tokenize_roundForm (s : String) :
    tokenize (String.ofList (s.toList.map roundChar)) =
      (tokenize s).map (List.map Token.roundForm) := by
  have hid : ∀ x : Except Diagnostic (List Token), x.mapError id = x := by
    intro x
    cases x <;> rfl
  have hmap : Except.map Token.roundForm = fun r : Except Diagnostic Token =>
      (r.map Token.roundForm).mapError id := by
    funext r
    cases r <;> rfl
  rw [tokenize, results_roundForm, hmap, mapM_map_results, hid]
  rfl

/-- Texts that are the same but for the forms of brackets have the same tokens but for
these forms, or the same diagnostic. -/
theorem tokenize_sameButForm {s t : String} (h : List.Forall₂ SameButForm s.toList t.toList) :
    (∃ d, tokenize s = .error d ∧ tokenize t = .error d) ∨
      ∃ ts us, tokenize s = .ok ts ∧ tokenize t = .ok us ∧
        ts.map Token.roundForm = us.map Token.roundForm := by
  have heq : (tokenize s).map (List.map Token.roundForm) =
      (tokenize t).map (List.map Token.roundForm) := by
    rw [← tokenize_roundForm, ← tokenize_roundForm, map_roundChar_eq h]
  cases hs : tokenize s with
  | error d =>
    cases ht : tokenize t with
    | error e =>
      rw [hs, ht] at heq
      obtain rfl : d = e := Except.error.inj heq
      exact .inl ⟨d, rfl, rfl⟩
    | ok us =>
      rw [hs, ht] at heq
      cases heq
  | ok ts =>
    cases ht : tokenize t with
    | error e =>
      rw [hs, ht] at heq
      cases heq
    | ok us =>
      rw [hs, ht] at heq
      exact .inr ⟨ts, us, rfl, rfl, Except.ok.inj heq⟩

end AssignLang
