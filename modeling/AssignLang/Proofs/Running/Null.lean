/-
# Where null comes from

No operation gives null. A program without assignments has the value null, and a
name is bound to null only if it was so before the run, or if an assignment copies
null: its right side is nothing but a name, in brackets or not, that is bound to null
when the assignment is run. An operand that is no number is null, and so it is found
only where some name was bound to null before the run.

So a scope in which no name is bound to null stays one, whatever texts are compiled
in it one after the other; none of them meets an operand that is no number, and the
value null is that of the texts without assignments.

Key definitions: `Scope.NullFree`, `NullOrigin`, `Bracketed`, `Scope.after`,
`NumbersOnly`.
Key theorems: `Expr.eval_eq_null`, `Expr.exists_null_of_notANumber`,
`Progress.nullFree`, `Progress.nullOrigin`, `null_only_copied`.
-/
import AssignLang.Proofs.Lexing.Tokenize
import AssignLang.Proofs.Reading.Refusals
import AssignLang.Proofs.Reading.Tokens
import AssignLang.Proofs.Running.Effect
import AssignLang.Proofs.Running.Operations

namespace AssignLang

/-- No name is bound to null. -/
def Scope.NullFree (s : Scope) : Prop := ∀ x, s.lookup x ≠ some .null

/-- The diagnostic is about an operand that is no number. -/
def Diagnostic.IsNotANumber (d : Diagnostic) : Prop := ∃ found, d.cause = .notANumber found

/-! ### Expressions -/

/-- **An expression that is null is a name bound to null.** -/
theorem Expr.eval_eq_null {s : Scope} {e : Expr} (h : e.eval s = .ok .null) :
    ∃ t, e = .name t ∧ s.lookup t.text = some .null := by
  cases e with
  | integer l => cases h
  | real l => cases h
  | name t => exact ⟨t, rfl, Scope.read_eq_ok_iff.mp h⟩
  | negate t e =>
    obtain ⟨v, -, hv⟩ := bind_eq_ok_iff.mp h
    obtain ⟨x, -, hx⟩ := Value.negate_eq_ok_iff.mp hv
    cases hx
  | binary op t l r =>
    obtain ⟨v, -, hr⟩ := bind_eq_ok_iff.mp h
    obtain ⟨w, -, hw⟩ := bind_eq_ok_iff.mp hr
    obtain ⟨x, y, -, -, -, hxy⟩ := BinaryOp.apply_eq_ok_iff.mp hw
    cases hxy

theorem Expr.exists_null_of_eval {s : Scope} {e : Expr} (h : e.eval s = .ok .null) :
    ∃ x, s.lookup x = some .null := by
  obtain ⟨t, -, ht⟩ := eval_eq_null h
  exact ⟨t.text, ht⟩

/-- **An operand that is no number comes from a name bound to null.** -/
theorem Expr.exists_null_of_notANumber {s : Scope} {e : Expr} {d : Diagnostic}
    (h : e.eval s = .error d) (hd : d.IsNotANumber) : ∃ x, s.lookup x = some .null := by
  induction e with
  | integer l => cases h
  | real l => cases h
  | name t =>
    obtain ⟨-, rfl⟩ := Scope.read_eq_error_iff.mp h
    obtain ⟨found, hfound⟩ := hd
    cases hfound
  | negate t e ih =>
    rcases bind_eq_error_iff.mp h with he | ⟨v, hv, hnegate⟩
    · exact ih he
    · obtain ⟨rfl, -⟩ := Value.negate_eq_error_iff.mp hnegate
      exact exists_null_of_eval hv
  | binary op t l r ihl ihr =>
    rcases bind_eq_error_iff.mp h with hl | ⟨v, hv, hrest⟩
    · exact ihl hl
    · rcases bind_eq_error_iff.mp hrest with hr | ⟨w, hw, happly⟩
      · exact ihr hr
      · rcases BinaryOp.apply_eq_error_iff.mp happly with
          ⟨rfl, -⟩ | ⟨x, -, rfl, -⟩ | ⟨x, y, -, -, -, rfl⟩
        · exact exists_null_of_eval hv
        · exact exists_null_of_eval hw
        · obtain ⟨found, hfound⟩ := hd
          cases hfound

/-! ### Names in brackets -/

/-- The tokens are the token `t`, in any number of brackets. -/
inductive Bracketed (t : Token) : List Token → Prop
  | bare : Bracketed t [t]
  | group {w : List Token} {opening closing : Token} (ho : opening.kind.isOpening = true)
      (h : Bracketed t w) (hc : closing.kind.isClosing = true) :
      Bracketed t (opening :: w ++ [closing])

/-- A phrase that stands for a name is the name in brackets. -/
theorem Phrase.bracketed_of_name {t : Token} : ∀ {s : Symbol} (p : Phrase s),
    p.expr? = some (.name t) → Bracketed t p.tokens
  | _, leaf u hu, h => by
    have hleaf : Expr.leaf? u = some (.name t) := h
    unfold Expr.leaf? at hleaf
    split at hleaf
    · obtain ⟨l, -, hl⟩ := Option.map_eq_some_iff.mp hleaf
      cases hl
    · obtain ⟨l, -, hl⟩ := Option.map_eq_some_iff.mp hleaf
      cases hl
    · cases hleaf
      exact .bare
    · cases hleaf
  | _, group opening ho body closing hc, h =>
    .group (Kind.isOpening_iff.mpr ho) (bracketed_of_name body h) (Kind.isClosing_iff.mpr hc)
  | _, single first, h => bracketed_of_name first h
  | _, negated minus hm first, h => by
    obtain ⟨e, -, he⟩ := Option.map_eq_some_iff.mp h
    cases he
  | _, more left sign hs right, h => by
    simp only [expr?, Option.bind_eq_some_iff, Option.map_eq_some_iff] at h
    obtain ⟨a, -, op, -, b, -, hab⟩ := h
    cases hab

/-- An assignment of a name is read from the name in brackets. -/
theorem Derivation.bracketed_of_name {d : Derivation} {p : Program} (h : d.program? = some p)
    {i : Nat} {a : Assignment} {t : Token} (ha : p.assignments[i]? = some a)
    (ht : a.expr = .name t) :
    ∃ l, d.body.assignments[i]? = some l ∧ Bracketed t l.content.expr.tokens := by
  simp only [program?, Body.program?, Option.bind_eq_some_iff, Option.map_eq_some_iff] at h
  obtain ⟨ds, -, as, has, rfl⟩ := h
  obtain ⟨l, hl, hla⟩ := getElem?_of_mapM has ha
  simp only [AssignmentLine.assignment?, Option.bind_eq_some_iff, Option.map_eq_some_iff] at hla
  obtain ⟨label, -, e, he, rfl⟩ := hla
  obtain rfl : e = .name t := ht
  exact ⟨l, hl, l.content.expr.bracketed_of_name he⟩

/-! ### Runs -/

/-- Why a name is bound to null after the first `n` assignments. -/
inductive NullOrigin (as : List Assignment) (n : Nat) (scopes : Nat → Scope) (x : String) : Prop
  /-- It was so before them, and none of them has it for a target. -/
  | kept (h : (scopes 0).lookup x = some .null) (hx : ∀ a ∈ as.take n, a.target.text ≠ x)
  /-- The last of them that has it for a target has a right side that is a name, and
  this name was bound to null. -/
  | copied {i : Nat} {a : Assignment} {t : Token} (hi : i < n) (ha : as[i]? = some a)
      (hx : a.target.text = x) (hname : a.expr = .name t)
      (hnull : (scopes i).lookup t.text = some .null)
      (hlast : ∀ j b, i < j ∧ j < n ∧ as[j]? = some b → b.target.text ≠ x)

section
variable {as : List Assignment} {n : Nat} {scopes : Nat → Scope} {values : Nat → Value}

/-- **One assignment after the other**: null is where it was, or the last assignment
copied it. -/
theorem Progress.nullOrigin {x : String} (h : Progress as n scopes values) (hn : n ≤ as.length)
    (hx : (scopes n).lookup x = some .null) : NullOrigin as n scopes x := by
  induction n with
  | zero => exact .kept hx (by simp)
  | succ n ih =>
    have hget : as[n]? = some as[n] := List.getElem?_eq_getElem (by omega)
    obtain ⟨hself, hother⟩ := h.binds n as[n] ⟨Nat.lt_succ_self n, hget⟩
    by_cases htarget : as[n].target.text = x
    · rw [htarget, hx] at hself
      have heval := h.eval n as[n] ⟨Nat.lt_succ_self n, hget⟩
      rw [← Option.some.inj hself] at heval
      obtain ⟨t, ht, hnull⟩ := Expr.eval_eq_null heval
      exact .copied (Nat.lt_succ_self n) hget htarget ht hnull fun j b hj => by omega
    · rw [hother x (Ne.symm htarget)] at hx
      cases ih h.of_succ (by omega) hx with
      | kept hfirst hbefore =>
        refine .kept hfirst ?_
        rw [List.take_add_one, hget, Option.toList_some, List.forall_mem_append,
          List.forall_mem_singleton]
        exact ⟨hbefore, htarget⟩
      | copied hi ha hax hname hnull hlast =>
        refine .copied (Nat.lt_succ_of_lt hi) ha hax hname hnull ?_
        rintro j b ⟨hij, hj, hb⟩
        by_cases hjn : j = n
        · subst hjn
          rw [hget] at hb
          exact Option.some.inj hb ▸ htarget
        · exact hlast j b ⟨hij, by omega, hb⟩

/-- **Without null before a run there is none during it.** -/
theorem Progress.nullFree (h : Progress as n scopes values) (hn : n ≤ as.length)
    (hfree : (scopes 0).NullFree) : (scopes n).NullFree := by
  -- what was copied was null earlier
  induction n using Nat.strongRecOn with
  | ind n ih =>
    intro x hx
    cases h.nullOrigin hn hx with
    | kept hfirst => exact hfree x hfirst
    | copied hi _ _ _ hnull => exact ih _ hi (h.of_lt hi) (by omega) _ hnull

/-- The value of the last assignment is a number, so only a run of none gives null. -/
theorem Progress.eq_nil_of_lastValue {before : Value} (h : Progress as n scopes values)
    (hn : n = as.length) (hfree : (scopes 0).NullFree)
    (hnull : lastValue before values n = .null) : as = [] := by
  cases n with
  | zero => exact List.length_eq_zero_iff.mp hn.symm
  | succ n =>
    have hget : as[n]? = some as[n] := List.getElem?_eq_getElem (by omega)
    have heval := h.eval n as[n] ⟨Nat.lt_succ_self n, hget⟩
    have hlast : values n = .null := hnull
    rw [hlast] at heval
    obtain ⟨x, hx⟩ := Expr.exists_null_of_eval heval
    exact absurd hx (h.of_succ.nullFree (by omega) hfree x)

end

/-- **A run that meets an operand that is no number** has a name bound to null before
it. -/
theorem Program.exists_null_of_notANumber {p : Program} {s : Scope} {d : Diagnostic}
    (h : (p.run s).1 = .error d) (hd : d.IsNotANumber) : ∃ x, s.lookup x = some .null := by
  obtain ⟨n, scopes, values, heffect⟩ := Assignment.exists_effect p.assignments s
  refine Classical.byContradiction fun hnone => ?_
  have hfree : (scopes 0).NullFree := by
    rw [heffect.first]
    exact fun x hx => hnone ⟨x, hx⟩
  have hending : Ending p.assignments n (p.run s).2 (lastValue .null values n) (p.run s).1 :=
    heffect.ending
  rw [h] at hending
  cases hending with
  | stopped ha he =>
    have hfinal : (p.run s).2 = scopes n := heffect.final
    obtain ⟨x, hx⟩ := Expr.exists_null_of_notANumber he hd
    rw [hfinal] at hx
    exact heffect.progress.nullFree heffect.le_length hfree x hx

/-! ### Texts -/

/-- A text that is no program is not reported for an operand. -/
theorem not_notANumber_of_readProgram {source : String} {d : Diagnostic}
    (h : readProgram source = .error d) : ¬ d.IsNotANumber := by
  rintro ⟨found, hfound⟩
  cases hts : tokenize source with
  | error e =>
    rw [readProgram_of_error hts] at h
    obtain ⟨c, hc⟩ := unexpectedCharacter_of_tokenize hts
    rw [Except.error.inj h, hfound] at hc
    cases hc
  | ok ts =>
    rw [readProgram_of_ok hts] at h
    obtain ⟨t, -, hrefusal⟩ := exists_refusal_of_parse h
    rw [hfound] at hrefusal
    cases hrefusal

/-- What the texts leave that are compiled one after the other, each in the scope that
the one before it left. -/
def Scope.after (s : Scope) (sources : List String) : Scope :=
  sources.foldl (fun t source => (compileWith source t).2) s

/-- Compiling the text in the scope meets no null. -/
structure NumbersOnly (source : String) (s : Scope) : Prop where
  /-- No name is bound to null at any time of the run. -/
  during : ∀ p, readProgram source = .ok p → ∃ n scopes values,
    Effect p.assignments s (compileWith source s) n scopes values ∧ ∀ i ≤ n, (scopes i).NullFree
  afterwards : (compileWith source s).2.NullFree
  error : ∀ d, (compileWith source s).1 = .error d → ¬ d.IsNotANumber
  /-- The value null is that of a program without assignments. -/
  null_iff : ∀ v, (compileWith source s).1 = .ok v →
    (v = .null ↔ ∃ p, readProgram source = .ok p ∧ p.assignments = [])

theorem NumbersOnly.of_nullFree {s : Scope} (h : s.NullFree) (source : String) :
    NumbersOnly source s := by
  cases hp : readProgram source with
  | error d =>
    have hrun := compileWith_of_error hp s
    refine ⟨fun p hp' => ?_, ?_, fun e he => ?_, fun v hv => ?_⟩
    · rw [hp] at hp'
      cases hp'
    · rwa [hrun]
    · rw [hrun] at he
      exact Except.error.inj he ▸ not_notANumber_of_readProgram hp
    · rw [hrun] at hv
      cases hv
  | ok p =>
    have hrun : compileWith source s = Assignment.runAll .null p.assignments s :=
      compileWith_of_ok hp s
    obtain ⟨n, scopes, values, heffect⟩ := Assignment.exists_effect p.assignments s
    have hfirst : (scopes 0).NullFree := by rwa [heffect.first]
    have hfree : ∀ i ≤ n, (scopes i).NullFree := by
      intro i hi
      rcases Nat.lt_or_eq_of_le hi with hlt | rfl
      · exact (heffect.progress.of_lt hlt).nullFree (by have := heffect.le_length; omega) hfirst
      · exact heffect.progress.nullFree heffect.le_length hfirst
    refine ⟨fun p' hp' => ?_, ?_, fun e he hnan => ?_, fun v hv => ?_⟩
    · rw [hp] at hp'
      rw [hrun, ← Except.ok.inj hp']
      exact ⟨n, scopes, values, heffect, hfree⟩
    · rw [hrun, heffect.final]
      exact hfree n (Nat.le_refl n)
    · rw [hrun] at he
      obtain ⟨x, hx⟩ := Program.exists_null_of_notANumber (p := p) he hnan
      exact h x hx
    · have hnone : (∃ p', readProgram source = .ok p' ∧ p'.assignments = []) ↔
          p.assignments = [] := by
        rw [hp]
        exact ⟨fun ⟨p', hp', hnil⟩ => Except.ok.inj hp' ▸ hnil, fun hnil => ⟨p, rfl, hnil⟩⟩
      rw [hrun] at hv
      have hending := heffect.ending
      rw [hv] at hending
      cases hending with
      | finished hlen =>
        rw [hnone]
        refine ⟨heffect.progress.eq_nil_of_lastValue hlen hfirst, fun hnil => ?_⟩
        · have hdone := congrArg Prod.fst (heffect.of_nil hnil)
          rw [hv] at hdone
          exact Except.ok.inj hdone

theorem Scope.nullFree_after {s : Scope} (h : s.NullFree) (sources : List String) :
    (s.after sources).NullFree := by
  induction sources generalizing s with
  | nil => exact h
  | cons source sources ih => exact ih (NumbersOnly.of_nullFree h source).afterwards

/-- **Null is only ever copied.** From a scope in which no name is bound to null,
texts that are compiled one after the other meet no null. In any scope a name is
bound to null after a run only because it was so before, or because an assignment
copied null, whose right side is a name in brackets; and a run meets an operand that
is no number only if a name was bound to null before it. -/
theorem null_only_copied :
    (∀ s : Scope, s.NullFree → ∀ sources, (s.after sources).NullFree ∧
      ∀ source, NumbersOnly source (s.after sources)) ∧
    (∀ (p : Program) (s : Scope), ∃ n scopes values,
      Effect p.assignments s (p.run s) n scopes values ∧
        ∀ x, (p.run s).2.lookup x = some .null → NullOrigin p.assignments n scopes x) ∧
    (∀ ts p, parse ts = .ok p → ∃ d : Derivation, d.tokens = beforeEnd ts ∧
      ∀ (i : Nat) (a : Assignment) t, p.assignments[i]? = some a ∧ a.expr = .name t →
        ∃ l : Line AssignmentLine, d.body.assignments[i]? = some l ∧
          Bracketed t l.content.expr.tokens) ∧
    ∀ (p : Program) (s : Scope) (d : Diagnostic), (p.run s).1 = .error d → d.IsNotANumber →
      ∃ x, s.lookup x = some .null := by
  refine ⟨?_, ?_, ?_, ?_⟩
  · intro s hs sources
    have hfree := Scope.nullFree_after hs sources
    exact ⟨hfree, NumbersOnly.of_nullFree hfree⟩
  · intro p s
    obtain ⟨n, scopes, values, heffect⟩ := Assignment.exists_effect p.assignments s
    refine ⟨n, scopes, values, heffect, fun x hx => ?_⟩
    have hfinal : (p.run s).2 = scopes n := heffect.final
    rw [hfinal] at hx
    exact heffect.progress.nullOrigin heffect.le_length hx
  · intro ts p hp
    obtain ⟨d, hd, hdp⟩ := parse_eq_ok_iff_derivation.mp hp
    exact ⟨d, hd, fun i a t ha => d.bracketed_of_name hdp ha.1 ha.2⟩
  · intro p s d h hd
    exact Program.exists_null_of_notANumber h hd

/-- `x = (y)`. -/
def nameInBrackets : List Token :=
  [.sample .beginWord "begin", .sample .newline "\n", .sample .identifier "x",
   .sample .assign "=", .sample .parenLeft "(", .sample .identifier "y",
   .sample .parenRight ")", .sample .newline "\n", .sample .endWord "end"]

/-- Texts on the empty scope, the second of which stops; null copied from a name in
brackets; and null added to itself. -/
theorem null_only_copied_brackets :
    (Scope.empty.NullFree ∧ NumbersOnly "begin\nend"
      (Scope.empty.after ["begin\nx = 1\ny = x\nend", "begin\nz = w\nend"])) ∧
    (∃ p a t, parse nameInBrackets = .ok p ∧ (p.assignments[0]? = some a ∧ a.expr = .name t) ∧
      ∃ d : Derivation, d.tokens = beforeEnd nameInBrackets ∧ ∃ l : Line AssignmentLine,
        d.body.assignments[0]? = some l ∧ Bracketed t l.content.expr.tokens) ∧
    ∃ (p : Program) (d : Diagnostic), (p.run (Scope.empty.declare "y" .null)).1 = .error d ∧
      d.IsNotANumber ∧ ∃ x, (Scope.empty.declare "y" .null).lookup x = some .null := by
  have hempty : Scope.empty.NullFree := fun x hx => by
    rw [Scope.lookup_empty] at hx
    cases hx
  let y : Token := .sample .identifier "y"
  let sum : Assignment := ⟨none, y, .binary .add (.sample .additive "+") (.name y) (.name y)⟩
  obtain ⟨hruns, -, hcopied, hstopped⟩ := null_only_copied
  refine ⟨⟨hempty, (hruns _ hempty _).2 _⟩, ?_, ?_⟩
  · obtain ⟨d, hd, hbracketed⟩ := hcopied nameInBrackets _ rfl
    exact ⟨_, _, y, rfl, ⟨rfl, rfl⟩, d, hd, hbracketed 0 _ y ⟨rfl, rfl⟩⟩
  · exact ⟨⟨[], [sum]⟩, _, rfl, ⟨_, rfl⟩, hstopped ⟨[], [sum]⟩ _ _ rfl ⟨_, rfl⟩⟩

end AssignLang
