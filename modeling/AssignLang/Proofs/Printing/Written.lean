/-
# Characters that write lexemes

`Written` says that characters are lexemes one after the other, with blanks where
two neighbours would run together. What is written this way is read back: its
tokens are these lexemes and the end of the text. Signs run together with nothing,
so brackets and line feeds need no blanks; and words with blanks between them, and
lines, are written if each of them is.

Key definitions: `Written`.
Key theorems: `Written.exists_pieces`, `Written.readsBack`, `Written.words`,
`Written.line_append`.
-/
import Mathlib.Data.List.Basic
import AssignLang.Proofs.Lexing.Layout

namespace AssignLang

/-- The characters are the lexemes, with blanks between neighbours that would run
together. No blanks stand before the first one or after the last. -/
inductive Written : List Char → List (Kind × String) → Prop
  | lexeme {x : List Char} {k : Kind} (h : IsLexeme x k) : Written x [(k, String.ofList x)]
  | append {x y : List Char} {ls ms : List (Kind × String)} (g : List Char) (hx : Written x ls)
      (hy : Written y ms) (hg : ∀ c ∈ g, isBlank c = true)
      (happart : ∀ a ∈ ls.getLast?, ∀ b ∈ ms.head?, a.1.joins b.1 = true → g ≠ []) :
      Written (x ++ (g ++ y)) (ls ++ ms)

/-- Pieces that are separated, before others that they do not run together with. -/
theorem separated_append : ∀ {ps qs : List Piece}, Separated ps → Separated qs →
    (∀ p ∈ ps.getLast?, ∀ q ∈ qs.head?, p.kind.joins q.kind = true → p.gap ≠ []) →
      Separated (ps ++ qs)
  | [], qs, _, hqs, _ => hqs
  | [p], qs, _, hqs, happart => ⟨happart p rfl, hqs⟩
  | p :: p' :: ps, qs, hps, hqs, happart => by
    obtain ⟨hp, hrest⟩ := hps
    rw [List.getLast?_cons_cons] at happart
    exact ⟨hp, separated_append hrest hqs happart⟩

namespace Written

variable {x y : List Char} {ls ms : List (Kind × String)}

theorem ne_nil (h : Written x ls) : ls ≠ [] := by
  induction h with
  | lexeme h => simp
  | append g hx hy hg happart ihx ihy => simp [ihx]

/-- What is written is separated pieces, whatever blanks come after it. -/
theorem exists_pieces (h : Written x ls) : ∀ g : List Char, (∀ c ∈ g, isBlank c = true) →
    ∃ ps : List Piece, ps.map Piece.lexeme = ls ∧ Piece.allChars ps = x ++ g ∧ Separated ps ∧
      ∀ p ∈ ps.getLast?, p.gap = g := by
  induction h with
  | @lexeme x k h =>
    intro g hg
    exact ⟨[⟨k, x, g, h, hg⟩], rfl, by simp [Piece.allChars], ⟨by simp, trivial⟩, by simp⟩
  | @append x y ls ms w hx hy hw happart ihx ihy =>
    intro g hg
    obtain ⟨ps, rfl, hps, hseparated, hlast⟩ := ihx w hw
    obtain ⟨qs, rfl, hqs, hseparated', hlast'⟩ := ihy g hg
    refine ⟨ps ++ qs, List.map_append, ?_, ?_, ?_⟩
    · rw [Piece.allChars, List.flatMap_append, ← Piece.allChars, ← Piece.allChars, hps, hqs]
      simp only [List.append_assoc]
    · refine separated_append hseparated hseparated' fun p hp q hq hjoins => ?_
      rw [hlast p hp]
      rw [List.getLast?_map, List.head?_map] at happart
      exact happart p.lexeme (Option.mem_map_of_mem _ hp) q.lexeme (Option.mem_map_of_mem _ hq)
        hjoins
    · have hqs' : qs ≠ [] := by simpa using hy.ne_nil
      rwa [List.getLast?_append_of_ne_nil _ hqs']

/-- **What is written is read back.** -/
theorem readsBack (h : Written x ls) : ∃ ts, tokenize (String.ofList x) = .ok ts ∧
    ts.map Token.lexeme = ls ++ [(.eof, "")] := by
  obtain ⟨ps, rfl, hps, hseparated, -⟩ := h.exists_pieces [] (by simp)
  have hrun := (Lexer.at_ofString (String.ofList x)).run_results
  have hdrop : (String.ofList x).toList.drop 0 = [] ++ Piece.allChars ps := by
    rw [hps, String.toList_ofList]
    simp
  obtain ⟨ts, hts, hspells⟩ := (hrun.spells_iff (g := []) (by simp) hdrop).mpr hseparated
  exact ⟨ts, tokenize_eq_ok_iff.mpr hts, hspells⟩

/-! ### Signs and blanks -/

/-- A sign before what is written. -/
theorem sign_append {c : Char} {k : Kind} (hc : IsSign c k) (h : Written x ls) :
    Written (c :: x) ((k, String.ofList [c]) :: ls) := by
  obtain ⟨hword, hnumber⟩ := hc.not_isWord_not_isNumber
  have hsign : Written [c] [(k, String.ofList [c])] := .lexeme (.sign hc)
  refine hsign.append [] h (by simp) fun a ha b _ hjoins => ?_
  obtain rfl : (k, String.ofList [c]) = a := by simpa using ha
  simp [Kind.joins, hword, hnumber] at hjoins

/-- A sign after what is written. -/
theorem append_sign {c : Char} {k : Kind} (hc : IsSign c k) (h : Written x ls) :
    Written (x ++ [c]) (ls ++ [(k, String.ofList [c])]) := by
  obtain ⟨hword, hnumber⟩ := hc.not_isWord_not_isNumber
  have hsign : Written [c] [(k, String.ofList [c])] := .lexeme (.sign hc)
  refine h.append [] hsign (by simp) fun a _ b hb hjoins => ?_
  obtain rfl : (k, String.ofList [c]) = b := by simpa using hb
  simp [Kind.joins, hword, hnumber] at hjoins

/-- A blank between what is written. -/
theorem append_blank (hx : Written x ls) (hy : Written y ms) :
    Written (x ++ ' ' :: y) (ls ++ ms) :=
  hx.append [' '] hy (by simp [isBlank]) fun _ _ _ _ _ => by simp

/-- Words with a blank between any two of them. -/
theorem words {α : Type} {f : α → List Char} {g : α → Kind × String} :
    ∀ {as : List α}, as ≠ [] → (∀ a ∈ as, Written (f a) [g a]) →
      Written ([' '].intercalate (as.map f)) (as.map g)
  | [], hne, _ => absurd rfl hne
  | [a], _, h => by simpa using h a List.mem_cons_self
  | a :: b :: as, _, h => by
    obtain ⟨ha, hrest⟩ := List.forall_mem_cons.mp h
    have hwords := ha.append_blank (words (List.cons_ne_nil b as) hrest)
    simpa using hwords

/-! ### Lines -/

/-- A line, and what is written after it. -/
theorem line_append (hx : Written x ls) (hy : Written y ms) :
    Written (x ++ ['\n'] ++ y) (ls ++ [(.newline, "\n")] ++ ms) := by
  refine (hx.append_sign .newline).append [] hy (by simp) fun a ha b _ hjoins => ?_
  obtain rfl : (Kind.newline, String.ofList ['\n']) = a := by simpa using ha
  cases hjoins

end Written
end AssignLang
