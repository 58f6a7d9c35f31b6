/-
# What a lexer returns

`Lexer.At` says that what a lexer holds agrees with the text: the characters that
are left, the one it looked at among them, are those after the ones passed, and
the three counts are those of the characters passed. Passing a character, looking
at one and skipping keep this, so a call of `Lexer.next` is described by the text
and the number of characters passed alone: it passes the blanks, and returns the
longest lexeme there, or the character that starts none, or the end.

Key definitions: `Lexer.At`, `Gap`, `Call`, `Lexer.calls`, `Run`.
Key theorems: `extract_between`, `Lexer.At.skip`, `Lexer.At.next`,
`Lexer.At.run_results`.
-/
import AssignLang.Token.Lexer
import AssignLang.Proofs.Lexing.Lexemes

namespace AssignLang

/-! ### Bytes -/

/-- How many bytes the characters take. -/
def byteLength : List Char → Nat
  | [] => 0
  | c :: u => c.utf8Size + byteLength u

theorem byteLength_cons (c : Char) (u : List Char) :
    byteLength (c :: u) = c.utf8Size + byteLength u := rfl

theorem byteLength_append (u v : List Char) :
    byteLength (u ++ v) = byteLength u + byteLength v := by
  induction u with
  | nil => rw [List.nil_append, byteLength, Nat.zero_add]
  | cons c u ih => rw [List.cons_append, byteLength_cons, byteLength_cons, ih, Nat.add_assoc]

theorem raw_ne_add (i : Nat) (c : Char) (u : List Char) :
    (⟨i⟩ : String.Pos.Raw) ≠ ⟨i + byteLength (c :: u)⟩ := by
  have hpos := c.utf8Size_pos
  rw [byteLength_cons, Ne, String.Pos.Raw.mk.injEq]
  omega

section
open String.Pos.Raw (extract)

/-- The end of a cut is found by its bytes. -/
theorem cut_to_byte (w : List Char) : ∀ (v : List Char) (i : Nat),
    extract.go₂ (v ++ w) ⟨i⟩ ⟨i + byteLength v⟩ = v
  | [], i => by
    rw [List.nil_append, byteLength, Nat.add_zero]
    cases w with
    | nil => rfl
    | cons c w => exact if_pos rfl
  | c :: v, i => by
    have hrest := cut_to_byte w v (i + c.utf8Size)
    rw [Nat.add_assoc, ← byteLength_cons] at hrest
    have hcut : extract.go₂ (c :: v ++ w) ⟨i⟩ ⟨i + byteLength (c :: v)⟩ =
        c :: extract.go₂ (v ++ w) ⟨i + c.utf8Size⟩ ⟨i + byteLength (c :: v)⟩ :=
      if_neg (raw_ne_add i c v)
    rw [hcut, hrest]

/-- The start of a cut is found by its byte. -/
theorem cut_from_byte (w : List Char) (e : String.Pos.Raw) : ∀ (u : List Char) (i : Nat),
    extract.go₁ (u ++ w) ⟨i⟩ ⟨i + byteLength u⟩ e = extract.go₂ w ⟨i + byteLength u⟩ e
  | [], i => by
    rw [List.nil_append, byteLength, Nat.add_zero]
    cases w with
    | nil => rfl
    | cons c w => exact if_pos rfl
  | c :: u, i => by
    have hrest := cut_from_byte w e u (i + c.utf8Size)
    rw [Nat.add_assoc, ← byteLength_cons] at hrest
    rw [← hrest]
    exact if_neg (raw_ne_add i c u)

/-- Between the bytes of `u` and those of `u` and `v` stands `v`. -/
theorem extract_between (u v w : List Char) :
    extract (String.ofList (u ++ (v ++ w))) ⟨byteLength u⟩ ⟨byteLength (u ++ v)⟩ =
      String.ofList v := by
  have hcut := cut_from_byte (v ++ w) ⟨byteLength u + byteLength v⟩ u 0
  rw [Nat.zero_add, cut_to_byte, ← byteLength_append] at hcut
  have hextract : extract (String.ofList (u ++ (v ++ w))) ⟨byteLength u⟩ ⟨byteLength (u ++ v)⟩ =
      if byteLength u ≥ byteLength (u ++ v) then ""
      else String.ofList (extract.go₁ (String.ofList (u ++ (v ++ w))).toList 0 ⟨byteLength u⟩
        ⟨byteLength (u ++ v)⟩) := rfl
  rw [hextract, String.toList_ofList]
  by_cases hle : byteLength u ≥ byteLength (u ++ v)
  · rw [if_pos hle]
    cases v with
    | nil => rfl
    | cons c v =>
      have hpos := c.utf8Size_pos
      rw [byteLength_append, byteLength_cons] at hle
      omega
  · rw [if_neg hle]
    exact congrArg String.ofList hcut

end

/-! ### What a lexer holds -/

/-- The place after the first characters. -/
def Place.ofChars (u : List Char) : Place := ⟨u.length, byteLength u, Position.start.afterChars u⟩

theorem Place.ofChars_concat (u : List Char) (c : Char) :
    Place.ofChars (u ++ [c]) = (Place.ofChars u).after c := by
  simp [ofChars, after, byteLength_append, byteLength]

/-- The position of the character number `n`. -/
def positionAt (cs : List Char) (n : Nat) : Position := Position.start.afterChars (cs.take n)

theorem take_succ_of_getElem? {cs : List Char} {n : Nat} {c : Char} (hc : cs[n]? = some c) :
    cs.take (n + 1) = cs.take n ++ [c] := by
  rw [List.take_add_one, hc, Option.toList_some]

theorem drop_of_getElem? {cs : List Char} {n : Nat} {c : Char} (hc : cs[n]? = some c) :
    cs.drop n = c :: cs.drop (n + 1) := by
  obtain ⟨hn, rfl⟩ := List.getElem?_eq_some_iff.mp hc
  exact List.drop_eq_getElem_cons hn

namespace Lexer

/-- **What the lexer holds agrees with the text `cs`**: a token starts after `m`
characters, `n` were passed, and `spaced` is the flag. -/
structure At (cs : List Char) (m n : Nat) (spaced : Bool) (l : Lexer) : Prop where
  source : l.source = String.ofList cs
  rest : l.ahead.toList ++ l.chars = cs.drop n
  start : l.start = Place.ofChars (cs.take m)
  here : l.here = Place.ofChars (cs.take n)
  flag : l.spaced = spaced
  le : m ≤ n
  le_length : n ≤ cs.length

variable {cs : List Char} {m n : Nat} {spaced : Bool} {l : Lexer}

theorem at_ofString (s : String) : At s.toList 0 0 false (ofString s) :=
  ⟨by simp [ofString], by simp [ofString], rfl, rfl, rfl, Nat.le_refl 0, Nat.zero_le _⟩

/-- The flag is no part of the text. -/
theorem At.mark (h : At cs m n spaced l) (spaced' : Bool) :
    At cs m n spaced' { l with spaced := spaced' } :=
  ⟨h.source, h.rest, h.start, h.here, rfl, h.le, h.le_length⟩

/-- Looking at a character passes none. -/
theorem At.peek (h : At cs m n spaced l) : At cs m n spaced l.peek ∧ l.peek.ahead = cs[n]? := by
  have hrest := h.rest
  rw [← Nat.add_zero n, ← List.getElem?_drop, ← hrest]
  unfold Lexer.peek
  split
  · next c u ha hu =>
    rw [ha, hu] at hrest
    exact ⟨⟨h.source, hrest, h.start, h.here, h.flag, h.le, h.le_length⟩, by simp [ha, hu]⟩
  · next hne =>
    refine ⟨h, ?_⟩
    cases ha : l.ahead with
    | some c => rfl
    | none =>
      cases hu : l.chars with
      | nil => rfl
      | cons c u => exact absurd hu (hne c u ha)

/-- Passing a character. -/
theorem At.consume (h : At cs m n spaced l) {c : Char} (hc : cs[n]? = some c) :
    ∃ l', l.consume = some (c, l') ∧ At cs m (n + 1) spaced l' := by
  have hrest := h.rest
  have hhere : l.here.after c = Place.ofChars (cs.take (n + 1)) := by
    rw [h.here, take_succ_of_getElem? hc, Place.ofChars_concat]
  have hlt : n + 1 ≤ cs.length := by
    obtain ⟨hn, -⟩ := List.getElem?_eq_some_iff.mp hc
    omega
  have hle : m ≤ n + 1 := Nat.le_succ_of_le h.le
  rw [drop_of_getElem? hc] at hrest
  unfold Lexer.consume
  cases ha : l.ahead with
  | some d =>
    rw [ha] at hrest
    obtain ⟨rfl, hchars⟩ := List.cons.inj hrest
    exact ⟨_, rfl, h.source, hchars, h.start, hhere, h.flag, hle, hlt⟩
  | none =>
    rw [ha] at hrest
    cases hu : l.chars with
    | nil =>
      rw [hu] at hrest
      cases hrest
    | cons d u =>
      rw [hu] at hrest
      obtain ⟨rfl, hchars⟩ := List.cons.inj hrest
      exact ⟨_, rfl, h.source, by simpa [ha] using hchars, h.start, hhere, h.flag, hle, hlt⟩

theorem At.consume_eq_none (h : At cs m n spaced l) (hn : cs[n]? = none) : l.consume = none := by
  have hrest := h.rest
  rw [List.drop_eq_nil_of_le (List.getElem?_eq_none_iff.mp hn), List.append_eq_nil_iff] at hrest
  have ha : l.ahead = none := by simpa using hrest.1
  rw [Lexer.consume, ha, hrest.2]

theorem At.drop (h : At cs m n spaced l) {c : Char} (hc : cs[n]? = some c) :
    At cs m (n + 1) spaced l.drop := by
  obtain ⟨l', hl', hat⟩ := h.consume hc
  rw [Lexer.drop, hl']
  exact hat

/-- Skipping passes the run of characters that the test allows. -/
theorem At.skip (p : Char → Bool) (marks : Bool) (h : At cs m n spaced l) :
    At cs m (n + ((cs.drop n).takeWhile p).length)
      (spaced || (marks && !((cs.drop n).takeWhile p).isEmpty)) (l.skip p marks) := by
  fun_induction Lexer.skip p marks l generalizing n spaced with
  | case1 l c hc hp ih =>
    obtain rfl := h.flag
    obtain ⟨hpeek, hnext⟩ := h.peek
    rw [hc] at hnext
    have hmark := (hpeek.drop hnext.symm).mark (l.spaced || marks)
    have hrun : (cs.drop n).takeWhile p = c :: (cs.drop (n + 1)).takeWhile p := by
      rw [drop_of_getElem? hnext.symm, List.takeWhile_cons_of_pos hp]
    have hlen : n + ((cs.drop n).takeWhile p).length =
        n + 1 + ((cs.drop (n + 1)).takeWhile p).length := by
      rw [hrun, List.length_cons]
      omega
    have hflag : (l.spaced || (marks && !((cs.drop n).takeWhile p).isEmpty)) =
        (l.spaced || marks || (marks && !((cs.drop (n + 1)).takeWhile p).isEmpty)) := by
      rw [hrun]
      cases marks <;> simp
    rw [hlen, hflag]
    exact ih hmark
  | case2 l c hc hp =>
    obtain ⟨hpeek, hnext⟩ := h.peek
    rw [hc] at hnext
    have hrun : (cs.drop n).takeWhile p = [] := by
      rw [drop_of_getElem? hnext.symm, List.takeWhile_cons_of_neg hp]
    rw [hrun]
    simpa using hpeek
  | case3 l hc =>
    obtain ⟨hpeek, hnext⟩ := h.peek
    rw [hc] at hnext
    have hrun : (cs.drop n).takeWhile p = [] := by
      rw [List.drop_eq_nil_of_le (List.getElem?_eq_none_iff.mp hnext.symm), List.takeWhile_nil]
    rw [hrun]
    simpa using hpeek

theorem At.span (h : At cs m n spaced l) : l.span = ⟨m, n⟩ := by
  have hle := h.le
  have hle_length := h.le_length
  rw [Lexer.span, h.start, h.here]
  simp only [Place.ofChars, List.length_take, Span.mk.injEq]
  omega

/-- The text of a token that ends here is what stands in the text. -/
theorem At.token {x : List Char} (h : At cs m (m + x.length) spaced l) (hx : x <+: cs.drop m)
    (k : Kind) : l.token k =
      ⟨k, String.ofList x, ⟨m, m + x.length⟩, positionAt cs m, spaced⟩ := by
  obtain ⟨w, hw⟩ := hx
  have hsplit : cs = cs.take m ++ (x ++ w) := by rw [hw, List.take_append_drop]
  have hhere : cs.take (m + x.length) = cs.take m ++ x := by
    rw [List.take_add, ← hw, List.take_left]
  have htext : l.text = String.ofList x := by
    have hcut := extract_between (cs.take m) x w
    rw [← hsplit, ← hhere] at hcut
    rw [text, h.source, h.start, h.here]
    exact hcut
  rw [Lexer.token, htext, h.span, h.start, h.flag]
  rfl

/-! ### One lexeme -/

/-- The token of the longest lexeme after `m` characters, and what is known after
it. -/
def Found (cs : List Char) (m : Nat) (spaced : Bool) (found : Except Diagnostic Token × Lexer) :
    Prop :=
  ∃ x k, Longest (cs.drop m) x k ∧
    found.1 = .ok ⟨k, String.ofList x, ⟨m, m + x.length⟩, positionAt cs m, spaced⟩ ∧
    At cs m (m + x.length) spaced found.2

theorem At.found {x : List Char} {k : Kind} (h : At cs m (m + x.length) spaced l)
    (hx : Longest (cs.drop m) x k) : Found cs m spaced (.ok (l.token k), l) :=
  ⟨x, k, hx, congrArg Except.ok (h.token hx.2.1 k), h⟩

theorem At.skip_of_not_marks (p : Char → Bool) (h : At cs m n spaced l) :
    At cs m (n + ((cs.drop n).takeWhile p).length) spaced (l.skip p false) := by
  simpa using h.skip p false

theorem At.scanNumber (h : At cs m (m + 1) spaced l) {c : Char} (hc : cs[m]? = some c)
    (hd : c.isDigit = true) : Found cs m spaced l.scanNumber := by
  generalize hds : (cs.drop (m + 1)).takeWhile Char.isDigit = ds
  have hdigits : ∀ d ∈ c :: ds, d.isDigit = true :=
    List.forall_mem_cons.mpr ⟨hd, fun d hd => of_mem_takeWhile (hds ▸ hd)⟩
  have hrest := drop_add_length_takeWhile Char.isDigit cs (m + 1)
  have hsplit : cs.drop m = c :: ds ++ cs.drop (m + 1 + ds.length) := by
    rw [← hds, hrest, drop_of_getElem? hc, List.cons_append, List.takeWhile_append_dropWhile]
  have hskip := h.skip_of_not_marks Char.isDigit
  rw [hds] at hrest hskip
  obtain ⟨hpeek, hnext⟩ := hskip.peek
  unfold Lexer.scanNumber
  dsimp only
  split
  · next hpoint =>
    rw [hnext] at hpoint
    have hreal := Longest.real (List.cons_ne_nil c ds) hdigits (cs.drop (m + 1 + ds.length + 1))
    rw [← drop_of_getElem? hpoint, ← hsplit] at hreal
    have hend := (hpeek.drop hpoint).skip_of_not_marks Char.isDigit
    refine At.found ?_ hreal
    rwa [List.length_append, List.length_cons, List.length_cons, Nat.add_comm ds.length 1,
      Nat.add_comm _ 1, ← Nat.add_assoc, ← Nat.add_assoc, ← Nat.add_assoc]
  · next hpoint =>
    rw [hnext] at hpoint
    have hu : ∀ d ∈ (cs.drop (m + 1 + ds.length)).head?, d.isDigit = false ∧ d ≠ '.' := by
      intro d hd
      refine ⟨?_, ?_⟩
      · rw [hrest] at hd
        exact head?_dropWhile _ _ d hd
      · rintro rfl
        rw [List.head?_drop] at hd
        exact hpoint hd
    have hwhole := Longest.whole (List.cons_ne_nil c ds) hdigits hu
    rw [← hsplit] at hwhole
    refine At.found ?_ hwhole
    rwa [List.length_cons, Nat.add_comm ds.length 1, ← Nat.add_assoc]

theorem At.scanWord (h : At cs m (m + 1) spaced l) {c : Char} (hc : cs[m]? = some c)
    (ha : c.isAlpha = true) : Found cs m spaced l.scanWord := by
  have hword := Longest.word ha (cs.drop (m + 1))
  rw [← drop_of_getElem? hc] at hword
  have hskip := h.skip_of_not_marks Char.isAlphanum
  have hat : At cs m (m + (c :: (cs.drop (m + 1)).takeWhile Char.isAlphanum).length) spaced
      (l.skip Char.isAlphanum false) := by
    rwa [List.length_cons, Nat.add_comm _ 1, ← Nat.add_assoc]
  generalize c :: (cs.drop (m + 1)).takeWhile Char.isAlphanum = x at hword hat
  have htext : (l.skip Char.isAlphanum false).text = String.ofList x :=
    congrArg Token.text (hat.token hword.2.1 .identifier)
  have hkind : Kind.ofWord x = (Kind.keyword? (String.ofList x)).getD .identifier := rfl
  unfold Lexer.scanWord
  dsimp only
  rw [htext]
  split
  · next k hk =>
    rw [hkind, hk] at hword
    exact hat.found hword
  · next hk =>
    rw [hkind, hk] at hword
    rw [if_pos hword.1.isName]
    exact hat.found hword

/-- What starts with a character is its longest lexeme, or there is none. -/
theorem At.scan (h : At cs m (m + 1) spaced l) {c : Char} (hc : cs[m]? = some c) :
    Found cs m spaced (l.scan c) ∨ ¬ StartsLexeme (cs.drop m) ∧
      l.scan c = (.error ⟨.unexpectedCharacter c, ⟨m, m + 1⟩, positionAt cs m⟩, l) := by
  have hdrop := drop_of_getElem? hc
  unfold Lexer.scan
  split
  · next k hk =>
    have hsign := Longest.sign (isSign_iff.mpr hk) (cs.drop (m + 1))
    rw [← hdrop] at hsign
    have hone : At cs m (m + [c].length) spaced l := h
    exact .inl (hone.found hsign)
  · next hs =>
    by_cases hd : c.isDigit = true
    · rw [if_pos hd]
      exact .inl (h.scanNumber hc hd)
    · rw [if_neg hd]
      by_cases ha : c.isAlphanum = true
      · rw [if_pos ha]
        have halpha : c.isAlpha = true := by simpa [Char.isAlphanum, hd] using ha
        exact .inl (h.scanWord hc halpha)
      · rw [if_neg ha]
        have halpha : c.isAlpha = false := by simpa [Char.isAlphanum, hd] using ha
        have hnone := not_startsLexeme hs (by simpa using hd) halpha (cs.drop (m + 1))
        rw [← hdrop] at hnone
        refine .inr ⟨hnone, ?_⟩
        rw [Lexer.fault, h.span, h.start]
        rfl

end Lexer

/-! ### One call -/

/-- The blanks after the first `n` characters end after the first `m`. -/
structure Gap (cs : List Char) (n m : Nat) : Prop where
  le : n ≤ m
  le_length : m ≤ cs.length
  blank : ∀ i c, n ≤ i ∧ i < m → cs[i]? = some c → isBlank c = true
  stop : ∀ c, cs[m]? = some c → isBlank c = false

theorem gap_takeWhile {cs : List Char} {n : Nat} (hn : n ≤ cs.length) :
    Gap cs n (n + ((cs.drop n).takeWhile isBlank).length) := by
  have hrest := drop_add_length_takeWhile isBlank cs n
  have hsplit := List.takeWhile_append_dropWhile (p := isBlank) (l := cs.drop n)
  refine ⟨by omega, ?_, ?_, ?_⟩
  · have hlen := congrArg List.length hsplit
    rw [List.length_append, List.length_drop] at hlen
    omega
  · rintro i c ⟨hni, hi⟩ hc
    rw [getElem?_eq_drop hni, ← hsplit, List.getElem?_append_left (by omega)] at hc
    exact of_mem_takeWhile (List.mem_of_getElem? hc)
  · intro c hc
    rw [← List.head?_drop, hrest] at hc
    exact head?_dropWhile _ _ c hc

/-- The result at the end of the text. -/
def endOf (cs : List Char) : Except Diagnostic Token :=
  .ok (.atEnd cs.length (positionAt cs cs.length))

/-- **What a call returns** when `n` characters were passed, and how many were
passed after it. -/
inductive Call (cs : List Char) (n : Nat) : Except Diagnostic Token → Nat → Prop
  /-- The end of the text. -/
  | finish (h : Gap cs n cs.length) : Call cs n (endOf cs) cs.length
  /-- The longest lexeme after the blanks. -/
  | token {m x k} (h : Gap cs n m) (hx : Longest (cs.drop m) x k) :
      Call cs n (.ok ⟨k, String.ofList x, ⟨m, m + x.length⟩, positionAt cs m, decide (n < m)⟩)
        (m + x.length)
  /-- A character that starts no lexeme. -/
  | unexpected {m c} (h : Gap cs n m) (hc : cs[m]? = some c) (hx : ¬ StartsLexeme (cs.drop m)) :
      Call cs n (.error ⟨.unexpectedCharacter c, ⟨m, m + 1⟩, positionAt cs m⟩) (m + 1)

/-- Only the end of the text is the end of the text. -/
theorem Call.eq_endOf {cs : List Char} {n j : Nat} {r : Except Diagnostic Token}
    (h : Call cs n r j) (hr : Lexer.isEnd r = true) : r = endOf cs ∧ j = cs.length := by
  cases h with
  | finish h => exact ⟨rfl, rfl⟩
  | token h hx => exact absurd (by simpa [Lexer.isEnd] using hr) hx.1.kind_ne_eof
  | unexpected h hc hx => cases hr

namespace Lexer

variable {cs : List Char} {m n : Nat} {spaced : Bool} {l : Lexer}

/-- A token starts after the blanks, and it is marked if there are some. -/
theorem At.beginToken (h : At cs m n spaced l) :
    ∃ i, Gap cs n i ∧ At cs i i (decide (n < i)) l.beginToken := by
  have hskip := (h.mark false).skip isBlank true
  have hmark : (false || (true && !((cs.drop n).takeWhile isBlank).isEmpty)) =
      decide (n < n + ((cs.drop n).takeWhile isBlank).length) := by
    cases (cs.drop n).takeWhile isBlank <;> simp
  rw [hmark] at hskip
  exact ⟨_, gap_takeWhile h.le_length,
    hskip.source, hskip.rest, hskip.here, hskip.here, hskip.flag, Nat.le_refl _, hskip.le_length⟩

/-- **A call goes from one agreement with the text to the next.** -/
theorem At.next (h : At cs m n spaced l) :
    ∃ m' n' spaced', Call cs n l.next.1 n' ∧ At cs m' n' spaced' l.next.2 := by
  obtain ⟨i, hgap, hbegin⟩ := h.beginToken
  unfold Lexer.next
  cases hc : cs[i]? with
  | none =>
    rw [hbegin.consume_eq_none hc]
    obtain rfl : i = cs.length :=
      Nat.le_antisymm hgap.le_length (List.getElem?_eq_none_iff.mp hc)
    have hat := hbegin.mark false
    have htoken := At.token (x := []) hat List.nil_prefix .eof
    refine ⟨_, _, _, ?_, hat⟩
    dsimp only
    rw [htoken]
    exact .finish hgap
  | some c =>
    obtain ⟨l', hl', hat⟩ := hbegin.consume hc
    rw [hl']
    dsimp only
    rcases hat.scan hc with ⟨x, k, hx, hfound, hend⟩ | ⟨hnone, hscan⟩
    · exact ⟨_, _, _, hfound ▸ .token hgap hx, hend⟩
    · rw [hscan]
      exact ⟨_, _, _, .unexpected hgap hc hnone, hat⟩

/-! ### Runs of calls -/

/-- The results of `k` calls. -/
def calls : Nat → Lexer → List (Except Diagnostic Token)
  | 0, _ => []
  | k + 1, l => l.next.1 :: calls k l.next.2

/-- Every call returns what stands in the text. -/
theorem At.call_of_mem_calls : ∀ {k m n : Nat} {spaced : Bool} {l : Lexer}, At cs m n spaced l →
    ∀ r ∈ l.calls k, ∃ i j, Call cs i r j
  | 0, _, _, _, _, _, _, hr => by cases hr
  | k + 1, m, n, spaced, l, h, r, hr => by
    obtain ⟨m', n', spaced', hcall, hnext⟩ := h.next
    rcases List.mem_cons.mp hr with rfl | hr
    · exact ⟨n, n', hcall⟩
    · exact hnext.call_of_mem_calls r hr

/-- The results up to the end are those of as many calls. -/
theorem calls_length_results (l : Lexer) : l.calls l.results.length = l.results := by
  fun_induction results l with
  | case1 l found h => rfl
  | case2 l found h ih => exact congrArg (List.cons l.next.1) ih

end Lexer

/-- Calls after `n` characters return the results `rs`, up to the first end. -/
inductive Run (cs : List Char) : Nat → List (Except Diagnostic Token) → Prop
  | last {n j r} (h : Call cs n r j) (hr : Lexer.isEnd r = true) : Run cs n [r]
  | cons {n j r rs} (h : Call cs n r j) (hr : Lexer.isEnd r = false) (hrs : Run cs j rs) :
      Run cs n (r :: rs)

theorem Lexer.At.run_results {cs : List Char} {m n : Nat} {spaced : Bool} {l : Lexer}
    (h : At cs m n spaced l) : Run cs n l.results := by
  obtain ⟨m', n', spaced', hcall, hnext⟩ := h.next
  cases hend : isEnd l.next.1 with
  | true =>
    rw [results_of_isEnd hend]
    exact .last hcall hend
  | false =>
    rw [results_of_not_isEnd hend]
    exact .cons hcall hend hnext.run_results
termination_by l.left
decreasing_by exact left_next_lt l hend

/-- The results end with the end of the text, and nowhere before. -/
def UpToEnd (rs : List (Except Diagnostic Token)) : Prop :=
  ∃ front e, rs = front ++ [e] ∧ Lexer.isEnd e = true ∧ ∀ r ∈ front, Lexer.isEnd r = false

/-- The last result is the end of the text. -/
theorem Run.exists_front {cs : List Char} {n : Nat} {rs : List (Except Diagnostic Token)}
    (h : Run cs n rs) :
    ∃ front, rs = front ++ [endOf cs] ∧ ∀ r ∈ front, Lexer.isEnd r = false := by
  induction h with
  | last h hr => exact ⟨[], by rw [(h.eq_endOf hr).1]; rfl, by simp⟩
  | cons h hr hrs ih =>
    obtain ⟨front, rfl, hfront⟩ := ih
    exact ⟨_ :: front, rfl, List.forall_mem_cons.mpr ⟨hr, hfront⟩⟩

theorem Run.upToEnd {cs : List Char} {n : Nat} {rs : List (Except Diagnostic Token)}
    (h : Run cs n rs) : UpToEnd rs := by
  obtain ⟨front, rfl, hfront⟩ := h.exists_front
  exact ⟨front, endOf cs, rfl, rfl, hfront⟩

/-- The place of a result. -/
def spanOf : Except Diagnostic Token → Span
  | .ok t => t.span
  | .error d => d.span

end AssignLang
