/-
# Blanks at the end of a text

No lexeme has a blank in it, and the blanks before the end of a text are passed before
the end is found. So the tokens of a text with blanks after it are those of the text;
only its end stands further right. And what stands behind the last lexeme of a text
are blanks.

Key theorems: `Call.of_append_blanks`, `Run.of_append_blanks`,
`tokenize_of_append_blanks`, `exists_blanks_of_tokenize`.
-/
import AssignLang.Proofs.Lexing.Tokenize

namespace AssignLang

/-! ### Blanks after the text -/

section
variable {u b x : List Char} {k : Kind} {n m j : Nat} (hb : ∀ c ∈ b, isBlank c = true)
include hb

/-- A lexeme ends before the blanks. -/
theorem IsLexeme.isPrefix_of_append_blanks (h : IsLexeme x k) (hpre : x <+: u ++ b) : x <+: u := by
  obtain ⟨w, hw⟩ := hpre
  rcases List.append_eq_append_iff.mp hw with ⟨a, rfl, -⟩ | ⟨a, rfl, rfl⟩
  · exact List.prefix_append x a
  · cases a with
    | nil => exact ⟨[], by simp⟩
    | cons c a =>
      have hblank := hb c (by simp)
      rw [h.not_isBlank c (by simp)] at hblank
      cases hblank

theorem Longest.of_append_blanks (h : Longest (u ++ b) x k) : Longest u x k := by
  refine ⟨h.1, h.1.isPrefix_of_append_blanks hb h.2.1, ?_⟩
  rintro y i ⟨hy, hpre⟩
  exact h.2.2 y i ⟨hy, hpre.trans (List.prefix_append u b)⟩

/-- What the blanks before it end at is no blank, so it belongs to the text. -/
theorem Gap.lt_of_append_blanks (h : Gap (u ++ b) n m) (hm : m < (u ++ b).length) :
    m < u.length := by
  apply Nat.lt_of_not_le
  intro hle
  rw [List.length_append] at hm
  have hlt : m - u.length < b.length := by omega
  have hget : (u ++ b)[m]? = some b[m - u.length] := by
    rw [List.getElem?_append_right hle, List.getElem?_eq_getElem hlt]
  have hblank := hb _ (List.getElem_mem hlt)
  rw [h.stop _ hget] at hblank
  cases hblank

omit hb in
theorem Gap.of_append (h : Gap (u ++ b) n m) (hm : m ≤ u.length) : Gap u n m := by
  refine ⟨h.le, hm, ?_, ?_⟩
  · intro i c hi hc
    refine h.blank i c hi ?_
    rw [List.getElem?_append_left (by omega), hc]
  · intro c hc
    obtain ⟨hlt, -⟩ := List.getElem?_eq_some_iff.mp hc
    refine h.stop c ?_
    rw [List.getElem?_append_left hlt, hc]

/-- **A call does not see the blanks after the text**, unless it is at the end. -/
theorem Call.of_append_blanks {r : Except Diagnostic Token} (h : Call (u ++ b) n r j)
    (hr : Lexer.isEnd r = false) : Call u n r j ∧ j ≤ u.length := by
  cases h with
  | finish hgap => cases hr
  | @token m x k hgap hx =>
    have hm := Nat.le_of_lt (hgap.lt_of_append_blanks hb hx.lt_length)
    rw [List.drop_append_of_le_length hm] at hx
    have hlongest := hx.of_append_blanks hb
    have hlength := hlongest.2.1.length_le
    rw [List.length_drop] at hlength
    rw [positionAt_append hm]
    exact ⟨.token (hgap.of_append hm) hlongest, by omega⟩
  | @unexpected m c hgap hc hnone =>
    obtain ⟨hlt, -⟩ := List.getElem?_eq_some_iff.mp hc
    have hm := hgap.lt_of_append_blanks hb hlt
    have hle := Nat.le_of_lt hm
    rw [List.getElem?_append_left hm] at hc
    rw [List.drop_append_of_le_length hle] at hnone
    rw [positionAt_append hle]
    refine ⟨.unexpected (hgap.of_append hle) hc ?_, hm⟩
    rintro ⟨y, i, hy, hpre⟩
    exact hnone ⟨y, i, hy, hpre.trans (List.prefix_append _ b)⟩

/-- **A run ends where the blanks begin.** -/
theorem Run.of_append_blanks {rs : List (Except Diagnostic Token)} (h : Run (u ++ b) n rs)
    (hn : n ≤ u.length) :
    ∃ front, rs = front ++ [endOf (u ++ b)] ∧ Run u n (front ++ [endOf u]) := by
  induction h with
  | @last n j r hcall hr =>
    obtain ⟨rfl, -⟩ := hcall.eq_endOf hr
    have hgap : Gap u n u.length := by
      refine ⟨hn, Nat.le_refl _, fun i c hi hc => ?_, fun c hc => by simp at hc⟩
      refine hcall.gap.blank i c ⟨hi.1, ?_⟩ (by rw [List.getElem?_append_left hi.2, hc])
      show i < (u ++ b).length
      rw [List.length_append]
      omega
    exact ⟨[], rfl, .last (.finish hgap) rfl⟩
  | cons hcall hr hrs ih =>
    obtain ⟨hcall', hj⟩ := hcall.of_append_blanks hb hr
    obtain ⟨front, rfl, hrun⟩ := ih hj
    exact ⟨_ :: front, rfl, .cons hcall' hr hrun⟩

/-- **The blanks after a text make no difference to its tokens**, but for the place of
the end. -/
theorem tokenize_of_append_blanks {ts : List Token}
    (h : tokenize (String.ofList (u ++ b)) = .ok ts) :
    ∃ front e e', ts = front ++ [e] ∧ tokenize (String.ofList u) = .ok (front ++ [e']) ∧
      e.kind = .eof ∧ e'.kind = .eof := by
  rw [tokenize_eq_ok_iff_run, String.toList_ofList] at h
  obtain ⟨rs, hrs, hrun⟩ := h.of_append_blanks hb (Nat.zero_le _)
  obtain ⟨front, rfl, rfl⟩ := exists_front_of_map hrs
  refine ⟨front, _, .atEnd u.length (positionAt u u.length), rfl, ?_, rfl, rfl⟩
  rw [tokenize_eq_ok_iff_run, String.toList_ofList, List.map_append]
  exact hrun

end

/-! ### Blanks behind the last lexeme -/

/-- **A text ends with its last lexeme and blanks.** -/
theorem exists_blanks_of_tokenize {source : String} {front : List Token} {t e : Token}
    (h : tokenize source = .ok (front ++ [t, e])) :
    ∃ u b, source.toList = u ++ t.text.toList ++ b ∧ ∀ c ∈ b, isBlank c = true := by
  obtain ⟨g, ps, -, hdrop, hspells⟩ := (tokenize_eq_ok_iff_run.mp h).exists_pieces rfl
  rw [Spells, List.map_append, List.map_cons, List.map_cons, List.map_nil,
    List.append_cons] at hspells
  obtain ⟨hfront, -⟩ := List.append_inj' hspells rfl
  obtain ⟨ps, last, rfl, -, hlast⟩ := List.map_eq_append_iff.mp hfront.symm
  obtain ⟨p, rfl, hp⟩ := List.map_eq_singleton_iff.mp hlast
  have hchars : t.text.toList = p.chars := by
    rw [show t.text = String.ofList p.chars from (congrArg Prod.snd hp).symm, String.toList_ofList]
  refine ⟨g ++ Piece.allChars ps, p.gap, ?_, p.blanks⟩
  rw [List.drop_zero] at hdrop
  simp [hdrop, hchars, Piece.allChars]

end AssignLang
