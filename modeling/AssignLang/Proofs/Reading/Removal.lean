/-
# Definitions and labels can be removed

A definition is the first tokens of its line, and its line feed is all that may
follow; blank lines after it can belong to the line before. A label and its colon are
the first tokens of theirs, and what follows them is an assignment by itself. So
without the tokens of a definition, up to its line feed, or without a label and its
colon the tokens of a program are one again, which lacks just that. Neither has an
influence on a run.

Key definitions: `Stretch`, `Stretch.IsDefinition`, `Stretch.IsLabel`,
`Program.withoutDefinition`, `Program.withoutLabel`.
Key theorems: `Derivation.exists_definition`, `Derivation.exists_label`,
`Derivation.exists_withoutDefinition`, `Derivation.exists_withoutLabel`,
`definitions_and_labels_inert`.
-/
import AssignLang.Proofs.Grammar.Slot
import AssignLang.Proofs.Reading.Joining
import AssignLang.Proofs.Reading.Tokens

namespace AssignLang

/-! ### Programs that lack something -/

/-- The assignment without its label. -/
def Assignment.withoutLabel (a : Assignment) : Assignment := { a with label := none }

/-- The program without its definition number `i`. -/
def Program.withoutDefinition (p : Program) (i : Nat) : Program :=
  { p with definitions := p.definitions.eraseIdx i }

/-- The program without the label of its assignment number `i`. -/
def Program.withoutLabel (p : Program) (i : Nat) : Program :=
  { p with assignments := p.assignments.modify i Assignment.withoutLabel }

/-- A definition has no influence on a run. -/
theorem Program.run_withoutDefinition (p : Program) (i : Nat) (s : Scope) :
    (p.withoutDefinition i).run s = p.run s := rfl

theorem Assignment.runAll_withoutLabel : ∀ (as : List Assignment) (i : Nat) (last : Value)
    (s : Scope), runAll last (as.modify i withoutLabel) s = runAll last as s
  | [], _, _, _ => by rw [List.modify_nil]
  | a :: as, 0, last, s => rfl
  | a :: as, i + 1, last, s => by
    rw [List.modify_succ_cons, runAll, runAll]
    cases a.run s with
    | mk result s' =>
      cases result with
      | ok v => exact runAll_withoutLabel as i v s'
      | error d => rfl

/-- A label has no influence on a run. -/
theorem Program.run_withoutLabel (p : Program) (i : Nat) (s : Scope) :
    (p.withoutLabel i).run s = p.run s :=
  Assignment.runAll_withoutLabel p.assignments i .null s

/-! ### Parts of the tokens -/

/-- A part of the tokens before the first end of the text, and what stands before and
after it. -/
structure Stretch (ts : List Token) where
  before : List Token
  tokens : List Token
  after : List Token
  tokens_eq : ts = before ++ (tokens ++ after)
  kind_ne_eof : ∀ t ∈ before ++ tokens, t.kind ≠ .eof

namespace Stretch

variable {ts : List Token}

/-- The tokens without the part. -/
def removed (x : Stretch ts) : List Token := x.before ++ x.after

/-- The part is the definition number `i`: a keyword, `i` ones before it, and what
follows it up to a first line feed, which is the last token of the part. -/
structure IsDefinition (x : Stretch ts) (i : Nat) : Prop where
  form : ∃ keyword items lineFeed, x.tokens = keyword :: (items ++ [lineFeed]) ∧
    keyword.kind.startsDefinition = true ∧ (∀ t ∈ items, t.kind ≠ .newline) ∧
    lineFeed.kind = .newline
  number : x.before.countP (fun t => t.kind.startsDefinition) = i

/-- The part is the label of the assignment number `i`: a whole numeral and a colon,
`i` equals signs before them. -/
structure IsLabel (x : Stretch ts) (i : Nat) : Prop where
  form : ∃ numeral colon, x.tokens = [numeral, colon] ∧ numeral.kind = .literalInt ∧
    colon.kind = .colon
  number : x.before.countP (fun t => t.kind == .assign) = i

end Stretch

/-! ### The kinds of lines -/

theorem AssignmentLine.label_kind (a : AssignmentLine) :
    ∀ t ∈ a.labelTokens, t.kind = .literalInt ∨ t.kind = .colon := by
  unfold labelTokens
  cases a.label with
  | none => simp
  | some x => simp [x.1.2, x.2.2]

/-- An assignment has no keyword. -/
theorem AssignmentLine.not_startsDefinition (a : AssignmentLine) :
    ∀ t ∈ a.tokens, t.kind.startsDefinition = false := by
  refine List.forall_mem_append.mpr ⟨fun t ht => ?_, List.forall_mem_cons.mpr ⟨?_,
    List.forall_mem_cons.mpr ⟨?_, fun t ht => ?_⟩⟩⟩
  · rcases a.label_kind t ht with hk | hk <;> rw [hk] <;> rfl
  · rw [a.target.2]
    rfl
  · rw [a.equals.2]
    rfl
  · have hin := a.expr.inExpression_of_mem ht
    revert hin
    cases t.kind <;> decide

/-- Neither an equals sign nor a colon stands in an expression. -/
theorem Phrase.kind_of_mem {s : Symbol} (p : Phrase s) :
    ∀ t ∈ p.tokens, (t.kind == .assign) = false ∧ (t.kind == .colon) = false := by
  intro t ht
  have hin := p.inExpression_of_mem ht
  revert hin
  cases t.kind <;> decide

theorem DefinitionLine.items_not_startsDefinition (d : DefinitionLine) :
    ∀ t ∈ d.items, t.kind.startsDefinition = false := by
  intro t ht
  rcases d.kinds with ⟨-, hi⟩ | ⟨-, hi⟩ <;> rw [hi t ht] <;> rfl

/-- A definition has neither an equals sign nor a colon. -/
theorem DefinitionLine.kind_of_mem (d : DefinitionLine) :
    ∀ t ∈ d.tokens, (t.kind == .assign) = false ∧ (t.kind == .colon) = false := by
  rcases d.kinds with ⟨hk, hi⟩ | ⟨hk, hi⟩ <;>
    exact List.forall_mem_cons.mpr ⟨by rw [hk]; decide, fun t ht => by rw [hi t ht]; decide⟩

theorem countP_eq_zero_of_forall {q : Kind → Bool} {w : List Token}
    (h : ∀ t ∈ w, q t.kind = false) : w.countP (fun t => q t.kind) = 0 :=
  List.countP_eq_zero.mpr fun t ht => by rw [h t ht]; decide

/-- Lines with `n` tokens of a sort each. -/
theorem Line.countP_allTokens {α : Type} {f : α → List Token} {q : Kind → Bool} {n : Nat}
    (hq : q .newline = false) (hf : ∀ a, (f a).countP (fun t => q t.kind) = n) :
    ∀ ls : List (Line α), (allTokens f ls).countP (fun t => q t.kind) = ls.length * n
  | [] => by simp [allTokens]
  | l :: ls => by
    have hbreaks : l.breaks.countP (fun t => q t.kind) = 0 :=
      countP_eq_zero_of_forall fun t ht => by rw [l.breaks_kind t ht, hq]
    show (l.tokens f ++ allTokens f ls).countP _ = _
    rw [List.countP_append, tokens, List.countP_append, hf, hbreaks, countP_allTokens hq hf ls,
      List.length_cons, Nat.succ_mul, Nat.add_zero, Nat.add_comm]

theorem DefinitionLine.keyword_startsDefinition (d : DefinitionLine) :
    d.keyword.kind.startsDefinition = true := by
  rcases d.kinds with ⟨hk, -⟩ | ⟨hk, -⟩ <;> rw [hk] <;> rfl

/-- A definition has one keyword. -/
theorem DefinitionLine.countP_startsDefinition (d : DefinitionLine) :
    d.tokens.countP (fun t => t.kind.startsDefinition) = 1 := by
  have hitems : d.items.countP (fun t => t.kind.startsDefinition) = 0 :=
    countP_eq_zero_of_forall d.items_not_startsDefinition
  rw [tokens, List.countP_cons, if_pos d.keyword_startsDefinition, hitems]

/-- An assignment has one equals sign. -/
theorem AssignmentLine.countP_assign (a : AssignmentLine) :
    a.tokens.countP (fun t => t.kind == .assign) = 1 := by
  have hlabel : a.labelTokens.countP (fun t => t.kind == .assign) = 0 :=
    countP_eq_zero_of_forall (q := (· == .assign)) fun t ht => by
      rcases a.label_kind t ht with hk | hk <;> rw [hk] <;> rfl
  have hexpr : a.expr.tokens.countP (fun t => t.kind == .assign) = 0 :=
    countP_eq_zero_of_forall (q := (· == .assign)) fun t ht => (a.expr.kind_of_mem t ht).1
  rw [tokens, List.countP_append, hlabel, List.countP_cons_of_neg (by simp [a.target.2]),
    List.countP_cons_of_pos (by simp [a.equals.2]), hexpr]

/-! ### Where a keyword and a colon stand -/

/-- **Every keyword of a derivation starts a definition in it.** -/
theorem Derivation.exists_definition {d : Derivation} {k : Token}
    (hk : k.kind.startsDefinition = true) {u w : List Token} (h : d.tokens = u ++ k :: w) :
    ∃ earlier l later, d.body.definitions = earlier ++ l :: later ∧ k = l.content.keyword ∧
      u = d.body.opening.tokens (fun t => [t.1]) ++ Line.allTokens DefinitionLine.tokens earlier := by
  rcases d.exists_statement hk rfl rfl rfl h with ⟨earlier, l, later, v, x, hl, hcontent, rfl⟩ |
    ⟨_, l, _, _, x, _, hcontent, _⟩
  · refine ⟨earlier, l, later, hl, ?_⟩
    cases v with
    | nil => exact ⟨(List.cons.inj hcontent).1.symm, by rw [List.append_nil]⟩
    | cons t v =>
      obtain ⟨-, hitems⟩ := List.cons.inj hcontent
      exact absurd ⟨x, hitems⟩ (not_mem_of_kind hk l.content.items_not_startsDefinition)
  · exact absurd ⟨x, hcontent⟩ (not_mem_of_kind hk l.content.not_startsDefinition)

/-- A colon of an assignment stands behind its label. -/
theorem AssignmentLine.label_of_colon {a : AssignmentLine} {c : Token} (hc : c.kind = .colon)
    {u w : List Token} (h : a.tokens = u ++ c :: w) :
    ∃ t e, a.label = some (t, e) ∧ c = e.1 ∧ u = [t.1] := by
  have hbody : ∀ t ∈ a.target.1 :: a.equals.1 :: a.expr.tokens, (t.kind == .colon) = false :=
    List.forall_mem_cons.mpr ⟨by simp [a.target.2], List.forall_mem_cons.mpr ⟨by simp [a.equals.2],
      fun t ht => (a.expr.kind_of_mem t ht).2⟩⟩
  obtain ⟨x, hx⟩ := exists_of_append_eq_right (q := (· == .colon)) (by simp [hc]) hbody h
  unfold labelTokens at hx
  cases hlabel : a.label with
  | none => simp [hlabel] at hx
  | some label =>
    obtain ⟨t, e⟩ := label
    rw [hlabel] at hx
    cases u with
    | nil =>
      -- the first token of the two is the label
      have hkind := t.2
      rw [(List.cons.inj hx).1, hc] at hkind
      cases hkind
    | cons t' u =>
      obtain ⟨rfl, hrest⟩ := List.cons.inj hx
      obtain ⟨rfl, hce⟩ := List.append_eq_singleton_iff.mp hrest.symm |>.resolve_right (by simp)
      exact ⟨t, e, rfl, (List.cons.inj hce).1, rfl⟩

/-- **Every colon of a derivation stands behind a label.** -/
theorem Derivation.exists_label {d : Derivation} {c : Token} (hc : c.kind = .colon)
    {u w : List Token} (h : d.tokens = u ++ c :: w) :
    ∃ earlier l later t e, d.body.assignments = earlier ++ l :: later ∧
      l.content.label = some (t, e) ∧ c = e.1 ∧
      u = d.body.opening.tokens (fun t => [t.1]) ++
        Line.allTokens DefinitionLine.tokens d.body.definitions ++
        Line.allTokens AssignmentLine.tokens earlier ++ [t.1] := by
  have hcolon : (c.kind == .colon) = true := by simp [hc]
  rcases d.exists_statement (q := (· == .colon)) hcolon rfl rfl rfl h with
    ⟨_, l, _, _, x, _, hcontent, _⟩ | ⟨earlier, l, later, v, x, hl, hcontent, rfl⟩
  · exact absurd ⟨x, hcontent⟩ (not_mem_of_kind (q := (· == .colon)) hcolon fun t ht =>
      (l.content.kind_of_mem t ht).2)
  · obtain ⟨t, e, hlabel, rfl, rfl⟩ := AssignmentLine.label_of_colon hc hcontent
    exact ⟨earlier, l, later, t, e, hl, hlabel, rfl, rfl⟩

/-! ### Derivations that lack something -/

/-- A partial function along a list, at one of its elements. -/
theorem mapM_append_cons_eq_some {α β : Type} {f : α → Option β} {a : α} {later : List α} :
    ∀ {earlier : List α} {bs : List β}, (earlier ++ a :: later).mapM f = some bs →
      ∃ cs b cs', earlier.mapM f = some cs ∧ f a = some b ∧ later.mapM f = some cs' ∧
        bs = cs ++ b :: cs' ∧ cs.length = earlier.length
  | [], bs, h => by
    obtain ⟨b, cs', hb, hcs', rfl⟩ := mapM_cons_eq_some_iff.mp h
    exact ⟨[], b, cs', rfl, hb, hcs', rfl, rfl⟩
  | e :: earlier, bs, h => by
    obtain ⟨c, bs', hc, hbs', rfl⟩ := mapM_cons_eq_some_iff.mp h
    obtain ⟨cs, b, cs', hcs, hb, hcs', rfl, hlength⟩ := mapM_append_cons_eq_some hbs'
    exact ⟨c :: cs, b, cs', mapM_cons_eq_some_iff.mpr ⟨c, cs, hc, hcs, rfl⟩, hb, hcs', rfl,
      congrArg (· + 1) hlength⟩

/-- A list is split by the number of an element. -/
theorem exists_append_cons_of_getElem? {α : Type} {a : α} {as : List α} {i : Nat}
    (h : as[i]? = some a) : ∃ earlier later, as = earlier ++ a :: later ∧ earlier.length = i := by
  obtain ⟨hi, rfl⟩ := List.getElem?_eq_some_iff.mp h
  refine ⟨as.take i, as.drop (i + 1), ?_, List.length_take_of_le (Nat.le_of_lt hi)⟩
  rw [← List.drop_eq_getElem_cons hi, List.take_append_drop]

theorem eraseIdx_append_cons {α : Type} (u : List α) (a : α) (v : List α) :
    (u ++ a :: v).eraseIdx u.length = u ++ v := by
  rw [List.eraseIdx_append_of_length_le (Nat.le_refl _), Nat.sub_self, List.eraseIdx_cons_zero]

theorem modify_append_cons {α : Type} (f : α → α) (u : List α) (a : α) (v : List α) :
    (u ++ a :: v).modify u.length f = u ++ f a :: v := by
  rw [List.modify_eq_take_drop, List.take_left, List.drop_left, List.modifyHead_cons]

/-- **A definition can be left out.** Line feeds after its own one belong to the line
before it. -/
theorem Derivation.exists_withoutDefinition {d : Derivation} {p : Program}
    (h : d.program? = some p) {earlier later : List (Line DefinitionLine)}
    {l : Line DefinitionLine} (hl : d.body.definitions = earlier ++ l :: later) {n : Token}
    {w : List Token} (hw : l.breaks = n :: w) :
    ∃ x, p.definitions[earlier.length]? = some x ∧ x.tokens = kept l.content.tokens ∧
    ∃ e : Derivation, e.program? = some (p.withoutDefinition earlier.length) ∧
      e.tokens = d.body.opening.tokens (fun t => [t.1]) ++
        Line.allTokens DefinitionLine.tokens earlier ++
        (w ++ (Line.allTokens DefinitionLine.tokens later ++
          Line.allTokens AssignmentLine.tokens d.body.assignments ++ [d.closing.1])) := by
  obtain ⟨ds, as⟩ := p
  obtain ⟨hds, has⟩ := Body.program?_eq_some_iff.mp h
  rw [DefinitionLine.definitions?, hl] at hds
  obtain ⟨cs, x, cs', hcs, hx, hcs', rfl, hlength⟩ := mapM_append_cons_eq_some hds
  have hblank : ∀ t ∈ w, t.kind = .newline := fun t ht =>
    l.breaks_kind t (by rw [hw]; exact List.mem_cons_of_mem n ht)
  have hfront : (⟨d.body.opening, earlier, []⟩ : Body).program? = some ⟨cs, []⟩ :=
    Body.program?_eq_some_iff.mpr ⟨hcs, rfl⟩
  have hback : (⟨d.body.opening, later, d.body.assignments⟩ : Body).program? = some ⟨cs', as⟩ :=
    Body.program?_eq_some_iff.mpr ⟨hcs', has⟩
  obtain ⟨b, hb, hprogram⟩ := Body.exists_blanks _ hblank
  rw [hfront] at hprogram
  refine ⟨x, by simp [← hlength], (l.content.definition_kept hx).1,
    ⟨b.append ⟨d.body.opening, later, d.body.assignments⟩, d.closing⟩, ?_, ?_⟩
  · have happend := Body.program?_append hprogram hback
    rw [program?, happend, Program.withoutDefinition, ← hlength, eraseIdx_append_cons]
    rfl
  · have horder := Body.assignments_eq_nil hprogram rfl
    rw [tokens, Body.tokens_append (.inl horder), hb]
    simp [Body.tokens, Body.lines, Line.allTokens]

/-- **A label can be left out** with its colon. -/
theorem Derivation.exists_withoutLabel {d : Derivation} {p : Program} (h : d.program? = some p)
    {earlier later : List (Line AssignmentLine)} {l : Line AssignmentLine}
    (hl : d.body.assignments = earlier ++ l :: later) {t : Terminal .literalInt}
    {c : Terminal .colon} (hlabel : l.content.label = some (t, c)) :
    ∃ a v, p.assignments[earlier.length]? = some a ∧ a.label = some v ∧ v.token = t.1 ∧
    ∃ e : Derivation, e.program? = some (p.withoutLabel earlier.length) ∧
      e.tokens = d.body.opening.tokens (fun t => [t.1]) ++
        Line.allTokens DefinitionLine.tokens d.body.definitions ++
        Line.allTokens AssignmentLine.tokens earlier ++
        (l.content.target.1 :: l.content.equals.1 :: l.content.expr.tokens ++ l.breaks ++
          Line.allTokens AssignmentLine.tokens later ++ [d.closing.1]) := by
  obtain ⟨ds, as⟩ := p
  obtain ⟨hds, has⟩ := Body.program?_eq_some_iff.mp h
  rw [AssignmentLine.assignments?, hl] at has
  obtain ⟨cs, a, cs', hcs, ha, hcs', rfl, hlength⟩ := mapM_append_cons_eq_some has
  simp only [AssignmentLine.assignment?, AssignmentLine.label?, hlabel, Option.bind_eq_some_iff,
    Option.map_eq_some_iff] at ha
  obtain ⟨label, ⟨v, hv, rfl⟩, x, hx, rfl⟩ := ha
  let bare : Line AssignmentLine := { l with content := { l.content with label := none } }
  have hbare : bare.content.assignment? = some ⟨none, l.content.target.1, x⟩ := by
    simp [bare, AssignmentLine.assignment?, AssignmentLine.label?, hx]
  have hassignments : (earlier ++ bare :: later).mapM (fun l => l.content.assignment?) =
      some (cs ++ ⟨none, l.content.target.1, x⟩ :: cs') := by
    have hlater := mapM_cons_eq_some_iff (f := fun l : Line AssignmentLine => l.content.assignment?)
      |>.mpr ⟨_, cs', hbare, hcs', rfl⟩
    rw [List.mapM_append, hcs, hlater]
    rfl
  refine ⟨⟨some v, l.content.target.1, x⟩, v, by simp [← hlength], rfl,
    (Literal.read?_eq_some_iff.mp hv).1,
    ⟨⟨d.body.opening, d.body.definitions, earlier ++ bare :: later⟩, d.closing⟩, ?_, ?_⟩
  · have hbody : (⟨d.body.opening, d.body.definitions, earlier ++ bare :: later⟩ : Body).program? =
        some ⟨ds, cs ++ ⟨none, l.content.target.1, x⟩ :: cs'⟩ :=
      Body.program?_eq_some_iff.mpr ⟨hds, hassignments⟩
    rw [program?, hbody, Program.withoutLabel, ← hlength, modify_append_cons]
    rfl
  · simp [tokens, Body.tokens, Line.allTokens, Line.tokens, AssignmentLine.tokens,
      AssignmentLine.labelTokens, bare]

/-! ### The tokens without a definition or a label -/

namespace Line

/-- As many keywords stand before a definition as definitions. -/
theorem countP_startsDefinition (opening : Line (Terminal .beginWord))
    (earlier : List (Line DefinitionLine)) :
    (opening.tokens (fun t => [t.1]) ++ allTokens DefinitionLine.tokens earlier).countP
      (fun t => t.kind.startsDefinition) = earlier.length := by
  have hopening := countP_eq_zero_of_forall
    (opening.forall_opening (q := Kind.startsDefinition) rfl rfl)
  have hearlier := countP_allTokens (q := Kind.startsDefinition) rfl
    DefinitionLine.countP_startsDefinition earlier
  rw [List.countP_append, hopening, hearlier, Nat.zero_add, Nat.mul_one]

/-- As many equals signs stand before an assignment as assignments. -/
theorem countP_assign (opening : Line (Terminal .beginWord))
    (definitions : List (Line DefinitionLine)) (earlier : List (Line AssignmentLine)) :
    (opening.tokens (fun t => [t.1]) ++ allTokens DefinitionLine.tokens definitions ++
      allTokens AssignmentLine.tokens earlier).countP (fun t => t.kind == .assign) =
        earlier.length := by
  have hopening := countP_eq_zero_of_forall (q := (· == .assign))
    (opening.forall_opening (q := (· == .assign)) rfl rfl)
  have hdefinitions := countP_allTokens (q := (· == .assign)) rfl
    (fun d => countP_eq_zero_of_forall (q := (· == .assign)) fun t ht =>
      (DefinitionLine.kind_of_mem d t ht).1) definitions
  have hearlier := countP_allTokens (q := (· == .assign)) rfl AssignmentLine.countP_assign earlier
  rw [List.countP_append, List.countP_append, hopening, hdefinitions, hearlier, Nat.mul_zero,
    Nat.zero_add, Nat.mul_one]

end Line

namespace Derivation

variable {d : Derivation}

/-- The tokens with one definition in sight. -/
theorem tokens_at_definition {earlier later : List (Line DefinitionLine)} {l : Line DefinitionLine}
    (hl : d.body.definitions = earlier ++ l :: later) : d.tokens =
      d.body.opening.tokens (fun t => [t.1]) ++ Line.allTokens DefinitionLine.tokens earlier ++
        (l.content.tokens ++ l.breaks ++ (Line.allTokens DefinitionLine.tokens later ++
          Line.allTokens AssignmentLine.tokens d.body.assignments ++ [d.closing.1])) := by
  simp [tokens, Body.tokens, hl, Line.allTokens, Line.tokens]

/-- The tokens with one assignment in sight. -/
theorem tokens_at_assignment {earlier later : List (Line AssignmentLine)} {l : Line AssignmentLine}
    (hl : d.body.assignments = earlier ++ l :: later) : d.tokens =
      d.body.opening.tokens (fun t => [t.1]) ++
        Line.allTokens DefinitionLine.tokens d.body.definitions ++
        Line.allTokens AssignmentLine.tokens earlier ++
        (l.content.labelTokens ++ (l.content.target.1 :: l.content.equals.1 ::
          l.content.expr.tokens ++ l.breaks ++ Line.allTokens AssignmentLine.tokens later ++
          [d.closing.1])) := by
  simp [tokens, Body.tokens, hl, Line.allTokens, Line.tokens, AssignmentLine.tokens]

end Derivation

namespace Stretch

variable {ts : List Token} {p : Program} {i : Nat}

theorem beforeEnd_eq (x : Stretch ts) :
    beforeEnd ts = x.before ++ (x.tokens ++ beforeEnd x.after) := by
  have hsplit : beforeEnd ts = beforeEnd (x.before ++ x.tokens ++ x.after) := by
    rw [List.append_assoc, ← x.tokens_eq]
  rw [hsplit, beforeEnd_append x.kind_ne_eof, List.append_assoc]

theorem beforeEnd_removed (x : Stretch ts) :
    beforeEnd x.removed = x.before ++ beforeEnd x.after :=
  beforeEnd_append (List.forall_mem_append.mp x.kind_ne_eof).1 x.after

/-- A definition among the tokens is the first part of a line, up to its first line feed. -/
theorem IsDefinition.exists_line {x : Stretch ts} (hx : x.IsDefinition i) {d : Derivation}
    (hd : d.tokens = beforeEnd ts) : ∃ earlier l later n w,
      d.body.definitions = earlier ++ l :: later ∧ l.breaks = n :: w ∧ earlier.length = i ∧
      x.tokens = l.content.tokens ++ [n] ∧
      x.before = d.body.opening.tokens (fun t => [t.1]) ++
        Line.allTokens DefinitionLine.tokens earlier ∧
      beforeEnd x.after = w ++ (Line.allTokens DefinitionLine.tokens later ++
        Line.allTokens AssignmentLine.tokens d.body.assignments ++ [d.closing.1]) := by
  obtain ⟨⟨keyword, items, lineFeed, hform, hkeyword, hitems, hlineFeed⟩, hnumber⟩ := hx
  have htokens : d.tokens =
      x.before ++ keyword :: (items ++ lineFeed :: beforeEnd x.after) := by
    rw [hd, x.beforeEnd_eq, hform]
    simp
  obtain ⟨earlier, l, later, hl, rfl, hbefore⟩ := Derivation.exists_definition hkeyword htokens
  obtain ⟨n, w, hw, hn⟩ := l.exists_break
  have hline : l.content.items ++ n :: (w ++ (Line.allTokens DefinitionLine.tokens later ++
      Line.allTokens AssignmentLine.tokens d.body.assignments ++ [d.closing.1])) =
      items ++ lineFeed :: beforeEnd x.after := by
    rw [Derivation.tokens_at_definition hl, ← hbefore, hw, DefinitionLine.tokens] at htokens
    simpa using htokens
  obtain ⟨rfl, hbreaks⟩ := append_inj_of_forall (p := fun t => t.kind != .newline)
    (fun t ht => by simpa using l.content.unbroken t (List.mem_cons_of_mem _ ht))
    (fun t ht => by simpa using hitems t ht) (by simp [hn]) (by simp [hlineFeed]) hline
  obtain ⟨rfl, hafter⟩ := List.cons.inj hbreaks
  refine ⟨earlier, l, later, n, w, hl, hw, ?_, hform, hbefore, hafter.symm⟩
  rw [← hnumber, hbefore, Line.countP_startsDefinition]

/-- **The tokens without a definition** are the program without it. -/
theorem IsDefinition.parse_removed {x : Stretch ts} (hx : x.IsDefinition i)
    (h : parse ts = .ok p) : ∃ d, p.definitions[i]? = some d ∧ kept x.tokens = d.tokens ∧
      parse x.removed = .ok (p.withoutDefinition i) := by
  obtain ⟨d, hd, hprogram⟩ := parse_eq_ok_iff_derivation.mp h
  obtain ⟨earlier, l, later, n, w, hl, hw, rfl, htokens, hbefore, hafter⟩ := hx.exists_line hd
  obtain ⟨y, hy, hkept, e, he, hetokens⟩ := Derivation.exists_withoutDefinition hprogram hl hw
  refine ⟨y, hy, ?_, parse_eq_ok_iff_derivation.mpr ⟨e, ?_, he⟩⟩
  · have hn : n.kind = .newline := l.breaks_kind n (by rw [hw]; exact List.mem_cons_self)
    have hnothing : kept [n] = [] := kept_cons_of_not_isKept (by rw [hn]; rfl) []
    rw [htokens, kept_append, hnothing, List.append_nil, hkept]
  · rw [hetokens, beforeEnd_removed, hafter, hbefore]

/-- A label among the tokens is the first part of a line. -/
theorem IsLabel.exists_line {x : Stretch ts} (hx : x.IsLabel i) {d : Derivation}
    (hd : d.tokens = beforeEnd ts) : ∃ earlier l later t c,
      d.body.assignments = earlier ++ l :: later ∧ l.content.label = some (t, c) ∧
      earlier.length = i ∧ x.tokens = [t.1, c.1] ∧
      x.before = d.body.opening.tokens (fun t => [t.1]) ++
        Line.allTokens DefinitionLine.tokens d.body.definitions ++
        Line.allTokens AssignmentLine.tokens earlier ∧
      beforeEnd x.after = l.content.target.1 :: l.content.equals.1 :: l.content.expr.tokens ++
        l.breaks ++ Line.allTokens AssignmentLine.tokens later ++ [d.closing.1] := by
  obtain ⟨⟨numeral, colon, hform, hnumeral, hcolon⟩, hnumber⟩ := hx
  have htokens : d.tokens = x.before ++ [numeral] ++ colon :: beforeEnd x.after := by
    rw [hd, x.beforeEnd_eq, hform]
    simp
  obtain ⟨earlier, l, later, t, c, hl, hlabel, rfl, hfront⟩ :=
    Derivation.exists_label hcolon htokens
  obtain ⟨hbefore, hsame⟩ := List.append_inj' hfront rfl
  obtain rfl : numeral = t.1 := List.singleton_inj.mp hsame
  refine ⟨earlier, l, later, t, c, hl, hlabel, ?_, hform, hbefore, ?_⟩
  · rw [← hnumber, hbefore, Line.countP_assign]
  · rw [Derivation.tokens_at_assignment hl, ← hbefore, AssignmentLine.labelTokens, hlabel] at htokens
    simpa using htokens.symm

/-- **The tokens without a label** and its colon are the program without it. -/
theorem IsLabel.parse_removed {x : Stretch ts} (hx : x.IsLabel i) (h : parse ts = .ok p) :
    ∃ a v, p.assignments[i]? = some a ∧ a.label = some v ∧ kept x.tokens = [v.token] ∧
      parse x.removed = .ok (p.withoutLabel i) := by
  obtain ⟨d, hd, hprogram⟩ := parse_eq_ok_iff_derivation.mp h
  obtain ⟨earlier, l, later, t, c, hl, hlabel, rfl, htokens, hbefore, hafter⟩ := hx.exists_line hd
  obtain ⟨a, v, ha, hav, hv, e, he, hetokens⟩ := Derivation.exists_withoutLabel hprogram hl hlabel
  refine ⟨a, v, ha, hav, ?_, parse_eq_ok_iff_derivation.mpr ⟨e, ?_, he⟩⟩
  · have hnothing : kept [c.1] = [] := kept_cons_of_not_isKept (by rw [c.2]; rfl) []
    rw [htokens, kept_cons_of_isKept (by rw [t.2]; rfl), hnothing, hv]
  · rw [hetokens, beforeEnd_removed, hafter, hbefore]

/-- What stands before the end of the text stands in the text. -/
theorem exists_of_beforeEnd {u v w : List Token} (h : beforeEnd ts = u ++ (v ++ w)) :
    ∃ x : Stretch ts, x.before = u ∧ x.tokens = v := by
  have hsplit : ts = beforeEnd ts ++ ts.dropWhile fun t => t.kind != .eof :=
    List.takeWhile_append_dropWhile.symm
  refine ⟨⟨u, v, w ++ ts.dropWhile fun t => t.kind != .eof, ?_, fun t ht => ?_⟩, rfl, rfl⟩
  · rw [← List.append_assoc v, ← List.append_assoc u, ← h]
    exact hsplit
  · have hmem : t ∈ beforeEnd ts := by
      rw [h, ← List.append_assoc]
      exact List.mem_append_left w ht
    simpa using of_mem_takeWhile hmem

/-- **Every definition of a program is a part of its tokens.** -/
theorem exists_isDefinition (h : parse ts = .ok p) {x : Definition}
    (hx : p.definitions[i]? = some x) : ∃ s : Stretch ts, s.IsDefinition i := by
  obtain ⟨d, hd, hprogram⟩ := parse_eq_ok_iff_derivation.mp h
  obtain ⟨l, hl, -⟩ := getElem?_of_mapM (Body.program?_eq_some_iff.mp hprogram).1 hx
  obtain ⟨earlier, later, hsplit, rfl⟩ := exists_append_cons_of_getElem? hl
  obtain ⟨n, w, hw, hn⟩ := l.exists_break
  have htokens : beforeEnd ts = d.body.opening.tokens (fun t => [t.1]) ++
      Line.allTokens DefinitionLine.tokens earlier ++
        (l.content.keyword :: (l.content.items ++ [n]) ++
          (w ++ (Line.allTokens DefinitionLine.tokens later ++
            Line.allTokens AssignmentLine.tokens d.body.assignments ++ [d.closing.1]))) := by
    rw [← hd, Derivation.tokens_at_definition hsplit, hw, DefinitionLine.tokens]
    simp
  obtain ⟨s, hbefore, hform⟩ := exists_of_beforeEnd htokens
  refine ⟨s, ⟨_, _, n, hform, l.content.keyword_startsDefinition, fun t ht => ?_, hn⟩, ?_⟩
  · exact l.content.unbroken t (List.mem_cons_of_mem _ ht)
  · rw [hbefore, Line.countP_startsDefinition]

/-- **Every label of a program is a part of its tokens.** -/
theorem exists_isLabel (h : parse ts = .ok p) {a : Assignment} {v : Literal}
    (ha : p.assignments[i]? = some a) (hv : a.label = some v) :
    ∃ s : Stretch ts, s.IsLabel i := by
  obtain ⟨d, hd, hprogram⟩ := parse_eq_ok_iff_derivation.mp h
  obtain ⟨l, hl, hla⟩ := getElem?_of_mapM (Body.program?_eq_some_iff.mp hprogram).2 ha
  obtain ⟨earlier, later, hsplit, rfl⟩ := exists_append_cons_of_getElem? hl
  obtain ⟨t, c, hlabel⟩ : ∃ t c, l.content.label = some (t, c) := by
    cases hlabel : l.content.label with
    | none =>
      simp only [AssignmentLine.assignment?, AssignmentLine.label?, hlabel, Option.bind_some,
        Option.map_eq_some_iff] at hla
      obtain ⟨e, -, rfl⟩ := hla
      cases hv
    | some x => exact ⟨x.1, x.2, rfl⟩
  have htokens := Derivation.tokens_at_assignment hsplit
  rw [hd, AssignmentLine.labelTokens, hlabel] at htokens
  obtain ⟨s, hbefore, hform⟩ := exists_of_beforeEnd htokens
  refine ⟨s, ⟨t.1, c.1, hform, t.2, c.2⟩, ?_⟩
  rw [hbefore, Line.countP_assign]

end Stretch

/-- **Definitions and labels are inert.** Every definition of a program that was read and
every label in it is a part of the tokens, and without that part the tokens are read as
the program without that definition or that label, which runs alike in every scope. -/
theorem definitions_and_labels_inert {ts : List Token} {p : Program} (h : parse ts = .ok p) :
    (∀ i d, p.definitions[i]? = some d → ∃ x : Stretch ts, x.IsDefinition i) ∧
    (∀ (x : Stretch ts) i, x.IsDefinition i → ∃ d, p.definitions[i]? = some d ∧
      kept x.tokens = d.tokens ∧ parse x.removed = .ok (p.withoutDefinition i)) ∧
    (∀ i a v, p.assignments[i]? = some a ∧ a.label = some v → ∃ x : Stretch ts, x.IsLabel i) ∧
    (∀ (x : Stretch ts) i, x.IsLabel i → ∃ a v, p.assignments[i]? = some a ∧ a.label = some v ∧
      kept x.tokens = [v.token] ∧ parse x.removed = .ok (p.withoutLabel i)) ∧
    ∀ i s, (p.withoutDefinition i).run s = p.run s ∧ (p.withoutLabel i).run s = p.run s :=
  ⟨fun _ _ hd => Stretch.exists_isDefinition h hd, fun _ _ hx => hx.parse_removed h,
    fun _ _ _ ⟨ha, hv⟩ => Stretch.exists_isLabel h ha hv, fun _ _ hx => hx.parse_removed h,
    fun i s => ⟨p.run_withoutDefinition i s, p.run_withoutLabel i s⟩⟩

/-- The last one of two definitions, with an empty line after it, and the label of an
assignment. -/
theorem definitions_and_labels_inert_last :
    let ts : List Token := [.sample .beginWord "begin", .sample .newline "\n",
      .sample .realWord "real", .sample .identifier "x", .sample .newline "\n",
      .sample .integerWord "integer", .sample .literalInt "3", .sample .newline "\n",
      .sample .newline "\n", .sample .literalInt "10", .sample .colon ":",
      .sample .identifier "x", .sample .assign "=", .sample .literalInt "2",
      .sample .newline "\n", .sample .endWord "end"]
    ∃ p, parse ts = .ok p ∧ (∃ x : Stretch ts, x.IsDefinition 1 ∧
      parse x.removed = .ok (p.withoutDefinition 1) ∧ (p.withoutDefinition 1).tokens ≠ p.tokens) ∧
      ∃ x : Stretch ts, x.IsLabel 0 ∧ parse x.removed = .ok (p.withoutLabel 0) ∧
        (p.withoutLabel 0).tokens ≠ p.tokens := by
  intro ts
  obtain ⟨p, hp, ⟨d, hd⟩, ⟨a, v, ha⟩, hdefinition, hlabel⟩ : ∃ p, parse ts = .ok p ∧
      (∃ d, p.definitions[1]? = some d) ∧
      (∃ a v, p.assignments[0]? = some a ∧ a.label = some v) ∧
      (p.withoutDefinition 1).tokens ≠ p.tokens ∧ (p.withoutLabel 0).tokens ≠ p.tokens :=
    ⟨_, rfl, ⟨_, rfl⟩, ⟨_, _, rfl, rfl⟩, by decide, by decide⟩
  obtain ⟨hdefinitions, hwithoutDefinition, hlabels, hwithoutLabel, -⟩ :=
    definitions_and_labels_inert hp
  obtain ⟨x, hx⟩ := hdefinitions 1 d hd
  obtain ⟨y, hy⟩ := hlabels 0 a v ha
  obtain ⟨-, -, -, hparsed⟩ := hwithoutDefinition x 1 hx
  obtain ⟨-, -, -, -, -, hparsed'⟩ := hwithoutLabel y 0 hy
  exact ⟨p, hp, ⟨x, hx, hparsed, hdefinition⟩, y, hy, hparsed', hlabel⟩

end AssignLang
