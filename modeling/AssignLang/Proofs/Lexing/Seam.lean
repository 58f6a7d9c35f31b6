/-
# Texts that meet at a line feed

A line feed is a lexeme by itself and no other lexeme holds one. So what is read
up to a line feed does not depend on what comes after it (`Run.exists_calls`),
and what comes after it is read alike behind every text that ends with a line
feed, only that it stands further right and further down (`Run.moved`).

Therefore the tokens of two bodies between `begin` and `end` are, when the bodies
are joined by a line feed, those of the first and then those of the second, moved
by the characters and the lines of the first.

Key definitions: `Token.moved`, `Diagnostic.moved`, `Calls`, `block`, `joined`,
`Spliced`.
Key theorems: `Run.eq`, `Run.exists_calls`, `Run.moved`, `tokenize_joined`.
-/
import AssignLang.Proofs.Lexing.Layout

namespace AssignLang

/-! ### Moved to another place -/

/-- The position so many lines further down. -/
def Position.down (p : Position) (lines : Nat) : Position :=
  ⟨p.line + Int32.ofNat lines, p.column⟩

/-- The span so many characters further right. -/
def Span.moved (s : Span) (chars : Nat) : Span := ⟨s.first + chars, s.stop + chars⟩

/-- The token at a place further right and further down. -/
def Token.moved (chars lines : Nat) (t : Token) : Token :=
  { t with span := t.span.moved chars, start := t.start.down lines }

/-- The diagnostic at a place further right and further down. -/
def Diagnostic.moved (chars lines : Nat) (d : Diagnostic) : Diagnostic :=
  { d with span := d.span.moved chars, position := d.position.down lines }

/-- The result at a place further right and further down. -/
def movedResult (chars lines : Nat) : Except Diagnostic Token → Except Diagnostic Token
  | .ok t => .ok (t.moved chars lines)
  | .error d => .error (d.moved chars lines)

theorem Position.after_down (p : Position) (lines : Nat) (c : Char) :
    (p.down lines).after c = (p.after c).down lines := by
  unfold after down
  by_cases hc : c = '\n'
  · simp only [if_pos hc, Position.mk.injEq, and_true]
    rw [Int32.add_assoc, Int32.add_comm (Int32.ofNat lines), ← Int32.add_assoc]
  · rw [if_neg hc, if_neg hc]

theorem Position.afterChars_down (lines : Nat) : ∀ (u : List Char) (p : Position),
    (p.down lines).afterChars u = (p.afterChars u).down lines
  | [], _ => rfl
  | c :: u, p => by
    rw [afterChars_cons, afterChars_cons, after_down, afterChars_down lines u]

/-- Behind a line feed the column is the first, and the lines are counted. -/
theorem afterChars_concat_break (u : List Char) :
    Position.start.afterChars (u ++ ['\n']) = ⟨Int32.ofNat (u.count '\n' + 2), 1⟩ := by
  have hline : lineOf (u ++ ['\n']) = u.count '\n' + 2 := by
    rw [lineOf, List.count_append, List.count_singleton_self]
    omega
  have hcolumn : columnOf (u ++ ['\n']) = 1 := by simp [columnOf]
  rw [afterChars_start, hline, hcolumn]
  rfl

/-! ### The text decides the results -/

theorem Gap.eq {cs : List Char} {n m m' : Nat} (h : Gap cs n m) (h' : Gap cs n m') : m = m' := by
  obtain ⟨g, hg, heq⟩ := h'.exists_blanks
  have hstop : ∀ c ∈ (cs.drop m').head?, isBlank c = false := by
    rw [List.head?_drop]
    exact h'.stop
  have hdrop := congrArg List.length (h.eq_of_append hg hstop heq).2
  have hle := h.le_length
  have hle' := h'.le_length
  rw [List.length_drop, List.length_drop] at hdrop
  omega

theorem Longest.startsLexeme {cs x : List Char} {k : Kind} (h : Longest cs x k) :
    StartsLexeme cs := ⟨x, k, h.1, h.2.1⟩

theorem Call.eq {cs : List Char} {n j j' : Nat} {r r' : Except Diagnostic Token}
    (h : Call cs n r j) (h' : Call cs n r' j') : r = r' ∧ j = j' := by
  cases h with
  | finish hgap =>
    cases h' with
    | finish hgap' => exact ⟨rfl, rfl⟩
    | token hgap' hx =>
      obtain rfl := hgap.eq hgap'
      exact absurd hx.lt_length (Nat.lt_irrefl _)
    | unexpected hgap' hc hx =>
      obtain rfl := hgap.eq hgap'
      simp at hc
  | token hgap hx =>
    cases h' with
    | finish hgap' =>
      obtain rfl := hgap.eq hgap'
      exact absurd hx.lt_length (Nat.lt_irrefl _)
    | token hgap' hx' =>
      obtain rfl := hgap.eq hgap'
      obtain ⟨rfl, rfl⟩ := hx.eq hx'
      exact ⟨rfl, rfl⟩
    | unexpected hgap' hc hnone =>
      obtain rfl := hgap.eq hgap'
      exact absurd hx.startsLexeme hnone
  | unexpected hgap hc hnone =>
    cases h' with
    | finish hgap' =>
      obtain rfl := hgap.eq hgap'
      simp at hc
    | token hgap' hx =>
      obtain rfl := hgap.eq hgap'
      exact absurd hx.startsLexeme hnone
    | unexpected hgap' hc' hnone' =>
      obtain rfl := hgap.eq hgap'
      obtain rfl := Option.some.inj (hc.symm.trans hc')
      exact ⟨rfl, rfl⟩

theorem Run.eq {cs : List Char} {n : Nat} {rs rs' : List (Except Diagnostic Token)}
    (h : Run cs n rs) (h' : Run cs n rs') : rs = rs' := by
  induction h generalizing rs' with
  | last hcall hr =>
    cases h' with
    | last hcall' hr' => rw [(hcall.eq hcall').1]
    | cons hcall' hr' hrs' =>
      rw [(hcall.eq hcall').1, hr'] at hr
      cases hr
  | cons hcall hr hrs ih =>
    cases h' with
    | last hcall' hr' =>
      rw [(hcall.eq hcall').1, hr'] at hr
      cases hr
    | cons hcall' hr' hrs' =>
      obtain ⟨rfl, rfl⟩ := hcall.eq hcall'
      rw [ih hrs']

/-! ### Up to a line feed -/

/-- Only the line feed is a lexeme with a line feed. -/
theorem IsLexeme.eq_of_break_mem {x : List Char} {k : Kind} (h : IsLexeme x k) (hx : '\n' ∈ x) :
    x = ['\n'] :=
  (h.eq_sign_of_mem hx rfl (by decide)).1

/-- A lexeme at the front of a text ends with its first line feed or before it. -/
theorem IsLexeme.isPrefix_break {x a v : List Char} {k : Kind} (h : IsLexeme x k)
    (hpre : x <+: a ++ '\n' :: v) : x <+: a ++ ['\n'] := by
  obtain ⟨u, hu⟩ := hpre
  rcases List.append_eq_append_iff.mp hu with ⟨b, rfl, -⟩ | ⟨c, rfl, hc⟩
  · rw [List.append_assoc]
    exact List.prefix_append x _
  · cases c with
    | nil =>
      rw [List.append_nil]
      exact List.prefix_append a _
    | cons d c =>
      obtain ⟨rfl, -⟩ := List.cons.inj hc
      have hx := h.eq_of_break_mem (by simp)
      obtain ⟨rfl, rfl⟩ : a = [] ∧ c = [] := by
        cases a with
        | nil => exact ⟨rfl, by simpa using hx⟩
        | cons e a => simp at hx
      exact List.prefix_refl _

theorem isPrefix_of_break {x a : List Char} (h : x <+: a ++ ['\n']) (w : List Char) :
    x <+: a ++ '\n' :: w := by
  refine h.trans ⟨w, ?_⟩
  rw [List.append_assoc]
  rfl

theorem StartsLexeme.of_break {a v w : List Char} (h : StartsLexeme (a ++ '\n' :: v)) :
    StartsLexeme (a ++ '\n' :: w) := by
  obtain ⟨x, k, hx, hpre⟩ := h
  exact ⟨x, k, hx, isPrefix_of_break (hx.isPrefix_break hpre) w⟩

theorem Longest.of_break {a v x : List Char} {k : Kind} (h : Longest (a ++ '\n' :: v) x k)
    (w : List Char) : Longest (a ++ '\n' :: w) x k := by
  refine ⟨h.1, isPrefix_of_break (h.1.isPrefix_break h.2.1) w, ?_⟩
  rintro y j ⟨hy, hpre⟩
  exact h.2.2 y j ⟨hy, isPrefix_of_break (hy.isPrefix_break hpre) v⟩

section
variable {u v : List Char} {n m : Nat}

theorem drop_append_break (hm : m ≤ u.length) (v : List Char) :
    (u ++ '\n' :: v).drop m = u.drop m ++ '\n' :: v :=
  List.drop_append_of_le_length hm

/-- The characters up to a line feed are the same whatever comes after it. -/
theorem getElem?_append_break {i : Nat} (hi : i ≤ u.length) (v w : List Char) :
    (u ++ '\n' :: v)[i]? = (u ++ '\n' :: w)[i]? := by
  by_cases hlt : i < u.length
  · rw [List.getElem?_append_left hlt, List.getElem?_append_left hlt]
  · obtain rfl : i = u.length := by omega
    rw [List.getElem?_append_right (Nat.le_refl _), List.getElem?_append_right (Nat.le_refl _),
      Nat.sub_self]
    rfl

/-- No blanks go over a line feed. -/
theorem Gap.le_of_break (h : Gap (u ++ '\n' :: v) n m) (hn : n ≤ u.length) : m ≤ u.length := by
  apply Nat.le_of_not_lt
  intro hlt
  have hbreak : (u ++ '\n' :: v)[u.length]? = some '\n' := by
    rw [List.getElem?_append_right (Nat.le_refl _), Nat.sub_self]
    rfl
  have hblank := h.blank u.length '\n' ⟨hn, hlt⟩ hbreak
  cases hblank

theorem Gap.of_break (h : Gap (u ++ '\n' :: v) n m) (hm : m ≤ u.length) (w : List Char) :
    Gap (u ++ '\n' :: w) n m := by
  refine ⟨h.le, ?_, ?_, ?_⟩
  · rw [List.length_append]
    omega
  · intro i c hi hc
    rw [getElem?_append_break (by omega) w v] at hc
    exact h.blank i c hi hc
  · intro c hc
    rw [getElem?_append_break hm w v] at hc
    exact h.stop c hc

/-- A position within a text does not depend on what comes after the text. -/
theorem positionAt_append (hm : m ≤ u.length) (v : List Char) :
    positionAt (u ++ v) m = positionAt u m := by
  rw [positionAt, positionAt, List.take_append_of_le_length hm]

theorem positionAt_append_break (hm : m ≤ u.length) (v w : List Char) :
    positionAt (u ++ '\n' :: v) m = positionAt (u ++ '\n' :: w) m := by
  rw [positionAt_append hm, positionAt_append hm]

/-- **A call before a line feed does not look past it**, and it is not at the
end. -/
theorem Call.of_break {j : Nat} {r : Except Diagnostic Token} (h : Call (u ++ '\n' :: v) n r j)
    (hn : n ≤ u.length) :
    Lexer.isEnd r = false ∧ j ≤ u.length + 1 ∧ ∀ w, Call (u ++ '\n' :: w) n r j := by
  cases h with
  | finish hgap =>
    have hle := hgap.le_of_break hn
    rw [List.length_append, List.length_cons] at hle
    omega
  | @token m x k hgap hx =>
    have hm := hgap.le_of_break hn
    rw [drop_append_break hm] at hx
    have hlen := (hx.1.isPrefix_break hx.2.1).length_le
    rw [List.length_append, List.length_drop, List.length_singleton] at hlen
    refine ⟨by simpa [Lexer.isEnd] using hx.1.kind_ne_eof, by omega, fun w => ?_⟩
    rw [positionAt_append_break hm v w]
    apply Call.token (hgap.of_break hm w)
    rw [drop_append_break hm]
    exact hx.of_break w
  | @unexpected m c hgap hc hnone =>
    have hm := hgap.le_of_break hn
    rw [drop_append_break hm] at hnone
    refine ⟨rfl, by omega, fun w => ?_⟩
    rw [positionAt_append_break hm v w]
    apply Call.unexpected (hgap.of_break hm w)
    · rw [getElem?_append_break hm w v, hc]
    · rw [drop_append_break hm]
      exact fun hstarts => hnone hstarts.of_break

end

/-- Calls after `n` characters return the results `rs`, none of which is the end,
and come to `j`. -/
inductive Calls (cs : List Char) : Nat → List (Except Diagnostic Token) → Nat → Prop
  | nil {n} : Calls cs n [] n
  | cons {n i j r rs} (h : Call cs n r i) (hr : Lexer.isEnd r = false) (hrs : Calls cs i rs j) :
      Calls cs n (r :: rs) j

theorem Calls.run {cs : List Char} {n j : Nat} {rs rs' : List (Except Diagnostic Token)}
    (h : Calls cs n rs j) (h' : Run cs j rs') : Run cs n (rs ++ rs') := by
  induction h with
  | nil => exact h'
  | cons hcall hr hrs ih => exact .cons hcall hr (ih h')

theorem Calls.not_isEnd {cs : List Char} {n j : Nat} {rs : List (Except Diagnostic Token)}
    (h : Calls cs n rs j) : ∀ r ∈ rs, Lexer.isEnd r = false := by
  induction h with
  | nil => simp
  | cons hcall hr hrs ih => exact List.forall_mem_cons.mpr ⟨hr, ih⟩

/-- **Every run comes to the line feed**, and up to there it does not depend on what
comes after it. -/
theorem Run.exists_calls {u v : List Char} {n : Nat} {rs : List (Except Diagnostic Token)}
    (h : Run (u ++ '\n' :: v) n rs) (hn : n ≤ u.length) :
    ∃ front back, rs = front ++ back ∧ (∀ w, Calls (u ++ '\n' :: w) n front (u.length + 1)) ∧
      Run (u ++ '\n' :: v) (u.length + 1) back := by
  induction h with
  | @last n j r hcall hr =>
    obtain ⟨hnot, -⟩ := hcall.of_break hn
    rw [hnot] at hr
    cases hr
  | @cons n j r rs hcall hr hrs ih =>
    obtain ⟨-, hle, hcalls⟩ := hcall.of_break hn
    by_cases hj : j ≤ u.length
    · obtain ⟨front, back, rfl, hfront, hback⟩ := ih hj
      exact ⟨r :: front, back, rfl, fun w => .cons (hcalls w) hr (hfront w), hback⟩
    · obtain rfl : j = u.length + 1 := by omega
      exact ⟨[r], rs, rfl, fun w => .cons (hcalls w) hr .nil, hrs⟩

/-! ### Behind a line feed -/

/-- The end of `u'` is so many characters further right, and so many lines further
down, than the end of `u`. -/
structure Further (u u' : List Char) (chars lines : Nat) : Prop where
  length_eq : u'.length = u.length + chars
  position_eq : Position.start.afterChars u' = (Position.start.afterChars u).down lines

/-- Texts that end with a line feed end in the same column. -/
theorem further_concat_break (u p : List Char) :
    Further (u ++ ['\n']) (u ++ '\n' :: p ++ ['\n']) (p.length + 1) (p.count '\n' + 1) := by
  constructor
  · simp only [List.length_append, List.length_cons, List.length_nil]
    omega
  · have hcount : (u ++ '\n' :: p).count '\n' + 2 = u.count '\n' + 2 + (p.count '\n' + 1) := by
      rw [List.count_append, List.count_cons_self]
      omega
    rw [afterChars_concat_break, afterChars_concat_break, hcount, Int32.ofNat_add]
    rfl

theorem isEnd_movedResult (chars lines : Nat) (r : Except Diagnostic Token) :
    Lexer.isEnd (movedResult chars lines r) = Lexer.isEnd r := by
  cases r <;> rfl

section
variable {u u' v : List Char} {chars lines n m : Nat}

theorem Further.getElem?_eq (hb : Further u u' chars lines) {i : Nat} (hi : u'.length ≤ i) :
    (u' ++ v)[i]? = (u ++ v)[i - chars]? := by
  have hlen := hb.length_eq
  rw [List.getElem?_append_right hi, List.getElem?_append_right (by omega)]
  congr 1
  omega

theorem Further.drop_eq (hb : Further u u' chars lines) (hm : u.length ≤ m) :
    (u' ++ v).drop (m + chars) = (u ++ v).drop m := by
  have hlen := hb.length_eq
  rw [List.drop_append, List.drop_append, List.drop_eq_nil_of_le hm,
    List.drop_eq_nil_of_le (by omega)]
  congr 2
  omega

theorem Further.positionAt_eq (hb : Further u u' chars lines) (hm : u.length ≤ m) :
    positionAt (u' ++ v) (m + chars) = (positionAt (u ++ v) m).down lines := by
  have hlen := hb.length_eq
  have hrest : m + chars - u'.length = m - u.length := by omega
  rw [positionAt, positionAt, List.take_append, List.take_append, List.take_of_length_le hm,
    List.take_of_length_le (by omega), hrest, Position.afterChars_append, hb.position_eq,
    Position.afterChars_down, Position.afterChars_append]

theorem Further.gap (hb : Further u u' chars lines) (hn : u.length ≤ n) (h : Gap (u ++ v) n m) :
    Gap (u' ++ v) (n + chars) (m + chars) := by
  have hlen := hb.length_eq
  have hle := h.le
  have hle_length := h.le_length
  rw [List.length_append] at hle_length
  refine ⟨by omega, ?_, ?_, ?_⟩
  · rw [List.length_append]
    omega
  · intro i c hi hc
    rw [hb.getElem?_eq (by omega)] at hc
    exact h.blank (i - chars) c ⟨by omega, by omega⟩ hc
  · intro c hc
    rw [hb.getElem?_eq (by omega), Nat.add_sub_cancel] at hc
    exact h.stop c hc

/-- **A call behind a line feed is the same call further on.** -/
theorem Further.call {j : Nat} {r : Except Diagnostic Token} (hb : Further u u' chars lines)
    (hn : u.length ≤ n) (h : Call (u ++ v) n r j) :
    Call (u' ++ v) (n + chars) (movedResult chars lines r) (j + chars) := by
  cases h with
  | finish hgap =>
    have hle := hgap.le
    have hlength : (u ++ v).length + chars = (u' ++ v).length := by
      rw [List.length_append, List.length_append, hb.length_eq]
      omega
    have hend : movedResult chars lines (endOf (u ++ v)) = endOf (u' ++ v) := by
      rw [endOf, endOf, ← hlength, hb.positionAt_eq (by omega)]
      rfl
    rw [hend, hlength]
    apply Call.finish
    rw [← hlength]
    exact hb.gap hn hgap
  | @token m x k hgap hx =>
    have hle := hgap.le
    have hmoved := Call.token (x := x) (k := k) (hb.gap hn hgap)
      (by rwa [hb.drop_eq (by omega)])
    rw [hb.positionAt_eq (by omega), Nat.add_right_comm m chars] at hmoved
    simp only [Nat.add_lt_add_iff_right] at hmoved
    exact hmoved
  | @unexpected m c hgap hc hnone =>
    have hle := hgap.le
    have hlen := hb.length_eq
    have hmoved := Call.unexpected (c := c) (hb.gap hn hgap)
      (by rwa [hb.getElem?_eq (by omega), Nat.add_sub_cancel])
      (by rwa [hb.drop_eq (by omega)])
    rw [hb.positionAt_eq (by omega), Nat.add_right_comm m chars] at hmoved
    exact hmoved

/-- **What comes behind a line feed is read alike further on.** -/
theorem Run.moved {rs : List (Except Diagnostic Token)} (hb : Further u u' chars lines)
    (h : Run (u ++ v) n rs) (hn : u.length ≤ n) :
    Run (u' ++ v) (n + chars) (rs.map (movedResult chars lines)) := by
  induction h with
  | last hcall hr => exact .last (hb.call hn hcall) (by rwa [isEnd_movedResult])
  | cons hcall hr hrs ih =>
    have hle := Nat.le_trans hcall.gap.le hcall.first_le_stop
    exact .cons (hb.call hn hcall) (by rwa [isEnd_movedResult]) (ih (Nat.le_trans hn hle))

end

/-! ### Bodies between `begin` and `end` -/

/-- The text of a program with the given body. -/
def block (body : String) : String := "begin\n" ++ body ++ "\nend"

/-- The body with one more body after it. -/
def joined (p q : String) : String := p ++ "\n" ++ q

/-- The token behind the line of a body. -/
def Token.behind (body : String) : Token → Token :=
  Token.moved (body.length + 1) (body.toList.count '\n' + 1)

/-- The diagnostic behind the line of a body. -/
def Diagnostic.behind (body : String) : Diagnostic → Diagnostic :=
  Diagnostic.moved (body.length + 1) (body.toList.count '\n' + 1)

/-- The tokens `vs` are those of a first block up to its `end` and then those of a
second one behind its first line, with `f` applied to them. -/
inductive Spliced (f : Token → Token) : (ts us vs : List Token) → Prop
  | intro {front back : List Token} {e z b n : Token} (hfront : ∀ t ∈ front, t.kind ≠ .eof)
      (hend : e.kind = .endWord ∧ z.kind = .eof) (hbegin : b.kind = .beginWord ∧ n.kind = .newline) :
      Spliced f (front ++ [e, z]) (b :: n :: back) (front ++ back.map f)

theorem toList_block (body : String) :
    (block body).toList = "begin".toList ++ '\n' :: (body.toList ++ '\n' :: "end".toList) := by
  simp [block]

/-- A run takes a lexeme that nothing continues. -/
theorem Run.cons_lexeme {cs g x u : List Char} {k : Kind} {n : Nat}
    {rs : List (Except Diagnostic Token)} (h : Run cs n rs) (hg : ∀ c ∈ g, isBlank c = true)
    (hx : IsLexeme x k) (hu : ∀ c ∈ u.head?, k.continues c = false)
    (heq : cs.drop n = g ++ (x ++ u)) :
    ∃ t rs', rs = .ok t :: rs' ∧ t.kind = k ∧ Run cs (n + g.length + x.length) rs' := by
  obtain ⟨y, i, t, rs', hy, rfl, ht, -, hrest⟩ := h.exists_longest hg hx heq
  obtain ⟨rfl, rfl⟩ := hy.eq ((longest_append_iff hx).mpr hu)
  exact ⟨t, rs', rfl, congrArg Prod.fst ht, hrest⟩

/-- After the last line feed of a block come `end` and the end of the text. -/
theorem Run.exists_end {u : List Char} {rs : List (Except Diagnostic Token)}
    (h : Run (u ++ '\n' :: "end".toList) (u.length + 1) rs) :
    ∃ e z : Token, rs = [.ok e, .ok z] ∧ e.kind = .endWord ∧ z.kind = .eof := by
  have hpieces : (u ++ '\n' :: "end".toList).drop (u.length + 1) =
      [] ++ Piece.allChars [⟨.endWord, "end".toList, [], .keyword .endWord, by simp⟩] := by
    rw [← List.drop_drop, List.drop_left]
    rfl
  have hspells := h.spells_iff (by simp) hpieces
  obtain ⟨ts, rfl, hts⟩ := hspells.mpr ⟨by simp, trivial⟩
  obtain ⟨e, z, rfl⟩ : ∃ e z, ts = [e, z] := by
    have hlength : ts.length = 2 := by simpa using congrArg List.length hts
    rcases ts with - | ⟨e, - | ⟨z, - | ⟨y, ts⟩⟩⟩
    · cases hlength
    · cases hlength
    · exact ⟨e, z, rfl⟩
    · cases hlength
  obtain ⟨he, hrest⟩ := List.cons.inj hts
  obtain ⟨hz, -⟩ := List.cons.inj hrest
  exact ⟨e, z, rfl, congrArg Prod.fst he, congrArg Prod.fst hz⟩

/-- A block starts with `begin` and a line feed. -/
theorem Run.exists_begin {v : List Char} {rs : List (Except Diagnostic Token)}
    (h : Run ("begin".toList ++ '\n' :: v) 0 rs) :
    ∃ (b n : Token) (rs' : List (Except Diagnostic Token)), rs = .ok b :: .ok n :: rs' ∧
      b.kind = .beginWord ∧ n.kind = .newline ∧ Run ("begin".toList ++ '\n' :: v) 6 rs' := by
  obtain ⟨b, rs, rfl, hb, h⟩ := h.cons_lexeme (g := []) (u := '\n' :: v) (by simp)
    (.keyword .beginWord) (by simp [Kind.continues, Char.isAlphanum]) rfl
  obtain ⟨n, rs, rfl, hn, h⟩ := h.cons_lexeme (g := []) (u := v) (by simp)
    (.sign .newline) (fun c _ => rfl) rfl
  exact ⟨b, n, rs, rfl, hb, hn, h⟩

/-- **The tokens of joined bodies** are those of the first block up to its `end` and
those of the second after its `begin`, moved behind the first body. -/
theorem tokenize_joined {p q : String} {ts us : List Token} (hp : tokenize (block p) = .ok ts)
    (hq : tokenize (block q) = .ok us) :
    ∃ vs, tokenize (block (joined p q)) = .ok vs ∧ Spliced (Token.behind p) ts us vs := by
  rw [tokenize_eq_ok_iff] at hp hq
  have hrunp := (Lexer.at_ofString (block p)).run_results
  have hrunq := (Lexer.at_ofString (block q)).run_results
  have hrun := (Lexer.at_ofString (block (joined p q))).run_results
  -- The first block up to its last line feed, and what the joined text has behind it.
  have htext : (block p).toList =
      "begin".toList ++ '\n' :: p.toList ++ '\n' :: "end".toList := by simp [block]
  have hjoined : (block (joined p q)).toList = "begin".toList ++ '\n' :: p.toList ++
      '\n' :: (q.toList ++ '\n' :: "end".toList) := by simp [block, joined]
  rw [hp, htext] at hrunp
  obtain ⟨front, rest, hfront, hcalls, hend⟩ := hrunp.exists_calls (Nat.zero_le _)
  obtain ⟨e, z, rfl, he, hz⟩ := hend.exists_end
  obtain ⟨front, last, rfl, rfl, hlast⟩ := List.map_eq_append_iff.mp hfront
  obtain rfl : last = [e, z] := (List.map_inj_right fun _ _ h => Except.ok.inj h).mp hlast
  -- The second block behind its first line feed, at its place in the joined text.
  rw [hq, toList_block] at hrunq
  obtain ⟨b, n, back, hback, hb, hn, hrunq⟩ := hrunq.exists_begin
  obtain ⟨b, us, rfl, hb', hback⟩ := List.map_eq_cons_iff.mp hback
  obtain ⟨n, us, rfl, hn', rfl⟩ := List.map_eq_cons_iff.mp hback
  obtain rfl := Except.ok.inj hb'
  obtain rfl := Except.ok.inj hn'
  rw [List.append_cons] at hrunq
  have hmoved := hrunq.moved (further_concat_break "begin".toList p.toList) (Nat.le_refl 6)
  have hnot : ∀ t ∈ front, t.kind ≠ .eof := by
    intro t ht
    have hok := (hcalls []).not_isEnd (.ok t) (List.mem_map_of_mem ht)
    simpa [Lexer.isEnd] using hok
  refine ⟨front ++ us.map (Token.behind p), ?_, .intro hnot ⟨he, hz⟩ ⟨hb, hn⟩⟩
  have hplace : 6 + (p.toList.length + 1) = ("begin".toList ++ '\n' :: p.toList).length + 1 := by
    rw [List.length_append, List.length_cons, show "begin".toList.length = 5 from rfl]
    omega
  rw [hplace, ← List.append_cons, List.map_map] at hmoved
  rw [tokenize_eq_ok_iff, Token.behind, ← String.length_toList, List.map_append, List.map_map]
  rw [hjoined] at hrun
  exact hrun.eq ((hcalls _).run hmoved)

end AssignLang
