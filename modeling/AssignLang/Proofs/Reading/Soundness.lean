/-
# What was read is part of a derivation

`Reading.Reads w r` says how the tokens `w` make up what the reading `r` holds:
the finished lines are a `Body`, the statement at hand is the start of a line,
and every frame is made of chains that wait for an operand. One more token keeps
this (`Reads.next`), so a reading that comes to `end` has read a derivation.

Key definitions: `Frame.Reads`, `Reading.Lines`, `Reading.Reads`.
Key theorems: `Reading.Reads.next`, `Reading.Reads.steps`,
`Reading.exists_derivation_of_steps`.
-/
import AssignLang.Proofs.Grammar.Derivation
import AssignLang.Proofs.Reading.Passage
import AssignLang.Proofs.Reading.Step

namespace AssignLang

/-! ### Frames

The tokens of a frame are those of its chains, each with the sign that waits for
an operand, from the one that binds least to the one that binds most. -/

/-- The tokens of a waiting operation: a chain and its sign. -/
def Pending.Reads (p : Pending) (level : Level) (x : List Token) : Prop :=
  ∃ c : Phrase (.chain level), c.expr? = some p.left ∧ x = c.tokens ++ [p.token] ∧
    p.token.kind = level.sign ∧ BinaryOp.ofSymbol? p.token.text = some p.op

/-- The tokens of the waiting operation, if there is one. -/
def ReadsOption (level : Level) : Option Pending → List Token → Prop
  | none, x => x = []
  | some p, x => p.Reads level x

/-- The tokens of what stands before the first product that is not read. -/
def Lead.Reads : Lead → List Token → Prop
  | .nothing, x => x = []
  | .minus t, x => x = [t] ∧ t.kind = .additive ∧ t.text = "-"
  | .sum p, x => p.Reads .sum x

namespace Frame

/-- The tokens of a frame. -/
def Reads (f : Frame) (z : List Token) : Prop :=
  ∃ a b c, f.lead.Reads a ∧ ReadsOption .product f.product b ∧ ReadsOption .power f.power c ∧
    z = a ++ b ++ c

/-- The tokens of the frames around open brackets, each with its bracket. -/
def AllRead : List Frame → List Token → Prop
  | [], y => y = []
  | f :: outer, y => ∃ x z t, AllRead outer x ∧ f.Reads z ∧
      (t.kind = .parenLeft ∨ t.kind = .bracketLeft) ∧ y = x ++ z ++ [t]

theorem reads_empty : Reads empty [] := ⟨[], [], [], rfl, rfl, rfl, rfl⟩

theorem Reads.eq_nil {z : List Token} (h : Reads empty z) : z = [] := by
  obtain ⟨a, b, c, rfl, rfl, rfl, rfl⟩ := h
  rfl

end Frame

/-- A chain that waits and its operand are a chain. -/
theorem ReadsOption.exists_phrase {level : Level} {o : Option Pending} {x : List Token}
    (h : ReadsOption level o x) (p : Phrase level.operand) {e : Expr} (he : p.expr? = some e) :
    ∃ q : Phrase (.chain level), q.tokens = x ++ p.tokens ∧ q.expr? = some (closeOption o e) := by
  cases o with
  | none =>
    obtain rfl : x = [] := h
    exact ⟨.single p, rfl, he⟩
  | some w =>
    obtain ⟨c, hc, rfl, hk, hop⟩ := h
    refine ⟨.more c w.token hk p, by simp [Phrase.tokens], ?_⟩
    simp [Phrase.expr?, hc, hop, he, closeOption, Pending.close]

theorem Lead.Reads.exists_phrase {lead : Lead} {x : List Token} (h : lead.Reads x)
    (p : Phrase (.chain .product)) {e : Expr} (he : p.expr? = some e) :
    ∃ q : Phrase (.chain .sum), q.tokens = x ++ p.tokens ∧ q.expr? = some (lead.close e) := by
  cases lead with
  | nothing =>
    obtain rfl : x = [] := h
    exact ⟨.single p, rfl, he⟩
  | minus t =>
    obtain ⟨rfl, hm⟩ := h
    exact ⟨.negated t hm p, rfl, by simp [Phrase.expr?, he, Lead.close]⟩
  | sum w =>
    exact ReadsOption.exists_phrase (o := some w) h p he

namespace Frame

/-- A frame and its last operand are a sum. -/
theorem Reads.exists_sum {f : Frame} {z : List Token} (h : f.Reads z) (p : Phrase .primary)
    {e : Expr} (he : p.expr? = some e) :
    ∃ q : Phrase (.chain .sum), q.tokens = z ++ p.tokens ∧ q.expr? = some (f.closeSum e) := by
  obtain ⟨a, b, c, ha, hb, hc, rfl⟩ := h
  obtain ⟨q, hq, heq⟩ := hc.exists_phrase p he
  obtain ⟨q', hq', heq'⟩ := hb.exists_phrase q heq
  obtain ⟨q'', hq'', heq''⟩ := ha.exists_phrase q' heq'
  exact ⟨q'', by simp [hq'', hq', hq], heq''⟩

/-- A sign after the operand opens a new wait. -/
theorem Reads.await {f : Frame} {z : List Token} (h : f.Reads z) (p : Phrase .primary) {e : Expr}
    (he : p.expr? = some e) {level : Level} {t : Token} {op : BinaryOp}
    (hk : t.kind = level.sign) (hop : BinaryOp.ofSymbol? t.text = some op) :
    (f.await level e op t).Reads (z ++ p.tokens ++ [t]) := by
  obtain ⟨q'', hq'', heq''⟩ := h.exists_sum p he
  obtain ⟨a, b, c, ha, hb, hc, rfl⟩ := h
  obtain ⟨q, hq, heq⟩ := hc.exists_phrase p he
  obtain ⟨q', hq', heq'⟩ := hb.exists_phrase q heq
  cases level with
  | power => exact ⟨a, b, _, ha, hb, ⟨q, heq, rfl, hk, hop⟩, by simp [hq]⟩
  | product => exact ⟨a, _, [], ha, ⟨q', heq', rfl, hk, hop⟩, rfl, by simp [hq', hq]⟩
  | sum => exact ⟨_, [], [], ⟨q'', heq'', rfl, hk, hop⟩, rfl, rfl, by simp [hq'']⟩

end Frame

theorem Expr.isOperand_of_leaf? {t : Token} {e : Expr} (h : leaf? t = some e) :
    t.kind.isOperand = true := by
  revert h
  unfold leaf?
  cases t.kind <;> simp [Kind.isOperand]

/-! ### Lines -/

theorem mapM_read?_map_token : ∀ {ls : List Literal}, (∀ l ∈ ls, Literal.read? l.token = some l) →
    (ls.map Literal.token).mapM Literal.read? = some ls
  | [], _ => rfl
  | l :: ls, h => by
    rw [List.map_cons, List.mapM_cons, h l List.mem_cons_self,
      mapM_read?_map_token fun m hm => h m (List.mem_cons_of_mem l hm)]
    rfl

namespace Line

variable {α : Type}

/-- The line with one more blank line after it. -/
def blank (l : Line α) (t : Token) (ht : t.kind = .newline) : Line α :=
  ⟨l.content, l.breaks ++ [t], by simp, by simpa [or_imp, forall_and, ht] using l.breaks_kind⟩

/-- The line of a content and one line feed. -/
def ofContent (a : α) (t : Token) (ht : t.kind = .newline) : Line α := ⟨a, [t], by simp, by simpa⟩

theorem tokens_blank (f : α → List Token) (l : Line α) (t : Token) (ht : t.kind = .newline) :
    (l.blank t ht).tokens f = l.tokens f ++ [t] := by
  simp [tokens, blank]

theorem allTokens_concat (f : α → List Token) (ls : List (Line α)) (l : Line α) :
    allTokens f (ls ++ [l]) = allTokens f ls ++ l.tokens f := by
  simp [allTokens]

end Line

namespace Body

/-- A blank line belongs to the last line of a body. -/
theorem exists_blank (b : Body) (t : Token) (ht : t.kind = .newline) :
    ∃ b' : Body, b'.tokens = b.tokens ++ [t] ∧ b'.program? = b.program? := by
  obtain ⟨opening, ds, as⟩ := b
  rcases List.eq_nil_or_concat as with rfl | ⟨as, a, rfl⟩
  · rcases List.eq_nil_or_concat ds with rfl | ⟨ds, d, rfl⟩
    · refine ⟨⟨opening.blank t ht, [], []⟩, ?_, rfl⟩
      simp [tokens, Line.tokens_blank, Line.allTokens]
    · refine ⟨⟨opening, ds ++ [d.blank t ht], []⟩, ?_, ?_⟩
      · simp [tokens, Line.tokens_blank, Line.allTokens]
      · simp [program?, DefinitionLine.definitions?, Line.blank]
  · refine ⟨⟨opening, ds, as ++ [a.blank t ht]⟩, ?_, ?_⟩
    · simp [tokens, Line.allTokens_concat, Line.tokens_blank]
    · simp [program?, AssignmentLine.assignments?, Line.blank]

theorem program?_eq_some_iff {b : Body} {ds : List Definition} {as : List Assignment} :
    b.program? = some ⟨ds, as⟩ ↔ DefinitionLine.definitions? b.definitions = some ds ∧
      AssignmentLine.assignments? b.assignments = some as := by
  unfold program?
  cases DefinitionLine.definitions? b.definitions <;>
    cases AssignmentLine.assignments? b.assignments <;> simp

/-- A body without assignments goes on with a definition. -/
theorem exists_define {b : Body} {ds : List Definition} (hb : b.program? = some ⟨ds, []⟩)
    (d : DefinitionLine) {v : Definition} (hd : d.definition? = some v) (t : Token)
    (ht : t.kind = .newline) :
    ∃ b' : Body, b'.tokens = b.tokens ++ d.tokens ++ [t] ∧ b'.program? = some ⟨ds ++ [v], []⟩ := by
  obtain ⟨hds, has⟩ := program?_eq_some_iff.mp hb
  have hnil : b.assignments = [] := eq_nil_of_mapM_eq_nil has
  refine ⟨⟨b.opening, b.definitions ++ [.ofContent d t ht], []⟩, ?_, ?_⟩
  · simp [tokens, hnil, Line.allTokens, Line.tokens, Line.ofContent]
  · rw [program?_eq_some_iff]
    exact ⟨by simp_all [DefinitionLine.definitions?, Line.ofContent], rfl⟩

/-- A body goes on with an assignment. -/
theorem exists_assign {b : Body} {ds : List Definition} {as : List Assignment}
    (hb : b.program? = some ⟨ds, as⟩) (a : AssignmentLine) {v : Assignment}
    (ha : a.assignment? = some v) (t : Token) (ht : t.kind = .newline) :
    ∃ b' : Body, b'.tokens = b.tokens ++ a.tokens ++ [t] ∧
      b'.program? = some ⟨ds, as ++ [v]⟩ := by
  obtain ⟨hds, has⟩ := program?_eq_some_iff.mp hb
  refine ⟨⟨b.opening, b.definitions, b.assignments ++ [.ofContent a t ht]⟩, ?_, ?_⟩
  · simp [tokens, Line.allTokens, Line.tokens, Line.ofContent]
  · rw [program?_eq_some_iff]
    exact ⟨hds, by simp_all [AssignmentLine.assignments?, Line.ofContent]⟩

end Body

/-- The tokens of the left side of an assignment. -/
def Head.Reads (head : Head) (x : List Token) : Prop :=
  head.target.kind = .identifier ∧
    match head.label with
    | none => x = [head.target]
    | some l => ∃ c : Token, x = [l.token, c, head.target] ∧ l.token.kind = .literalInt ∧
        Literal.read? l.token = some l ∧ c.kind = .colon

/-- A left side, an equals sign and a sum are an assignment. -/
theorem Head.Reads.exists_line {head : Head} {x : List Token} (h : head.Reads x) {t : Token}
    (ht : t.kind = .assign) (p : Phrase (.chain .sum)) {e : Expr} (he : p.expr? = some e) :
    ∃ a : AssignmentLine, a.tokens = x ++ t :: p.tokens ∧
      a.assignment? = some ⟨head.label, head.target, e⟩ := by
  obtain ⟨label, target⟩ := head
  obtain ⟨htarget, hlabel⟩ := h
  cases label with
  | none =>
    obtain rfl : x = [target] := hlabel
    refine ⟨⟨none, ⟨target, htarget⟩, ⟨t, ht⟩, p⟩, rfl, ?_⟩
    simp [AssignmentLine.assignment?, AssignmentLine.label?, he]
  | some l =>
    obtain ⟨c, rfl, hl, hread, hc⟩ := hlabel
    refine ⟨⟨some (⟨l.token, hl⟩, ⟨c, hc⟩), ⟨target, htarget⟩, ⟨t, ht⟩, p⟩, rfl, ?_⟩
    simp [AssignmentLine.assignment?, AssignmentLine.label?, he, hread]

namespace Reading

/-- The tokens are those of the finished lines. -/
def Lines (r : Reading) (u : List Token) : Prop :=
  ∃ b : Body, b.tokens = u ∧ b.program? = some r.program

/-- The tokens are those of the finished lines and of an assignment up to its
equals sign. -/
def Assigns (r : Reading) (head : Head) (v : List Token) : Prop :=
  ∃ u x t, r.Lines u ∧ head.Reads x ∧ t.kind = .assign ∧ v = u ++ x ++ [t]

/-- **The tokens `w` make up what the reading holds.** -/
def Reads (w : List Token) (r : Reading) : Prop :=
  match r.phase with
  | .start => w = [] ∧ r.definitions = #[] ∧ r.assignments = #[]
  | .heading => (∃ t, w = [t] ∧ t.kind = .beginWord) ∧ r.definitions = #[] ∧ r.assignments = #[]
  | .line => r.Lines w
  | .names k ns => ∃ u, r.Lines u ∧ r.assignments = #[] ∧ w = u ++ k :: ns.toList ∧
      k.kind = .realWord ∧ ∀ t ∈ ns.toList, t.kind = .identifier
  | .integers k ls => ∃ u, r.Lines u ∧ r.assignments = #[] ∧
      w = u ++ k :: ls.toList.map Literal.token ∧ k.kind = .integerWord ∧
      ∀ l ∈ ls.toList, l.token.kind = .literalInt ∧ Literal.read? l.token = some l
  | .label l => ∃ u, r.Lines u ∧ w = u ++ [l.token] ∧ l.token.kind = .literalInt ∧
      Literal.read? l.token = some l
  | .labelled l => ∃ u c, r.Lines u ∧ w = u ++ [l.token, c] ∧ l.token.kind = .literalInt ∧
      Literal.read? l.token = some l ∧ c.kind = .colon
  | .target head => ∃ u x, r.Lines u ∧ head.Reads x ∧ w = u ++ x
  | .operand head f outer => ∃ v y z, r.Assigns head v ∧ Frame.AllRead outer y ∧ f.Reads z ∧
      w = v ++ y ++ z
  | .operator head f outer e => ∃ v y z, ∃ p : Phrase .primary, r.Assigns head v ∧
      Frame.AllRead outer y ∧ f.Reads z ∧ p.expr? = some e ∧ w = v ++ y ++ z ++ p.tokens
  | .ended => ∃ d : Derivation, d.tokens = w ∧ d.program? = some r.program

/-- The first tokens are the empty body: `begin` and its line feed. -/
theorem exists_heading {t b : Token} (ht : t.kind = .beginWord) (hb : b.kind = .newline) :
    ∃ body : Body, body.tokens = [t, b] ∧ body.program? = some ⟨[], []⟩ :=
  ⟨⟨.ofContent ⟨t, ht⟩ b hb, [], []⟩, rfl, rfl⟩

/-- **One more token keeps it.** -/
theorem Reads.next {w : List Token} {r r' : Reading} {t : Token} (hw : Reads w r)
    (h : Next r t r') : Reads (w ++ [t]) r' := by
  cases h with
  | opens h =>
    obtain ⟨rfl, hds, has⟩ := hw
    exact ⟨⟨t, rfl, h⟩, hds, has⟩
  | heads h =>
    obtain ⟨⟨b, rfl, hb⟩, rfl, rfl⟩ := hw
    exact exists_heading hb h
  | blank h =>
    obtain ⟨b, rfl, hb⟩ := hw
    obtain ⟨b', ht, hb'⟩ := b.exists_blank t h
    exact ⟨b', ht, hb'.trans hb⟩
  | ends h =>
    obtain ⟨b, rfl, hb⟩ := hw
    exact ⟨⟨b, ⟨t, h⟩⟩, rfl, hb⟩
  | real h => exact ⟨w, hw, rfl, rfl, h, by simp⟩
  | name h =>
    obtain ⟨u, hu, has, rfl, hk, hns⟩ := hw
    exact ⟨u, hu, has, by simp, hk, by simpa [or_imp, forall_and, h] using hns⟩
  | @names ds as k ns t h hne =>
    obtain ⟨u, ⟨b, rfl, hb⟩, rfl, rfl, hk, hns⟩ := hw
    have hitems : ns.toList ≠ [] := by simpa using hne
    have hlisted : ∀ x ∈ ns.toList, k.kind.listed? = some x.kind := fun x hx => by
      rw [hk, hns x hx]
      rfl
    obtain ⟨b', ht, hb'⟩ := Body.exists_define hb ⟨k, ns.toList, hitems, hlisted⟩
      (v := .real k ns.toList) (by simp [DefinitionLine.definition?, hk]) t h
    exact ⟨b', ht, by simpa [program] using hb'⟩
  | integer h => exact ⟨w, hw, rfl, rfl, h, by simp⟩
  | whole h hl =>
    obtain ⟨u, hu, has, rfl, hk, hls⟩ := hw
    have htok := (Literal.read?_eq_some_iff.mp hl).1
    refine ⟨u, hu, has, by simp [htok], hk, ?_⟩
    simpa [or_imp, forall_and, htok, h, hl] using hls
  | @wholes ds as k ls t h hne =>
    obtain ⟨u, ⟨b, rfl, hb⟩, rfl, rfl, hk, hls⟩ := hw
    have hitems : ls.toList.map Literal.token ≠ [] := by simpa using hne
    have hlisted : ∀ x ∈ ls.toList.map Literal.token, k.kind.listed? = some x.kind := by
      intro x hx
      obtain ⟨l, hl, rfl⟩ := List.mem_map.mp hx
      rw [hk, (hls l hl).1]
      rfl
    have hread : (ls.toList.map Literal.token).mapM Literal.read? = some ls.toList :=
      mapM_read?_map_token fun l hl => (hls l hl).2
    obtain ⟨b', ht, hb'⟩ := Body.exists_define hb ⟨k, ls.toList.map Literal.token, hitems, hlisted⟩
      (v := .integer k ls.toList) (by simp [DefinitionLine.definition?, hk, hread]) t h
    exact ⟨b', ht, by simpa [program] using hb'⟩
  | label h hl =>
    have htok := (Literal.read?_eq_some_iff.mp hl).1
    exact ⟨w, hw, by rw [htok], by rw [htok, h], by rw [htok, hl]⟩
  | colon h =>
    obtain ⟨u, hu, rfl, hk, hl⟩ := hw
    exact ⟨u, t, hu, by simp, hk, hl, h⟩
  | @labelled ds as l t h =>
    obtain ⟨u, c, hu, rfl, hk, hl, hc⟩ := hw
    exact ⟨u, [l.token, c, t], hu, ⟨h, c, rfl, hk, hl, hc⟩, by simp⟩
  | target h => exact ⟨w, [t], hw, ⟨h, rfl⟩, rfl⟩
  | equals h =>
    obtain ⟨u, x, hu, hx, rfl⟩ := hw
    exact ⟨u ++ x ++ [t], [], [], ⟨u, x, t, hu, hx, h, rfl⟩, rfl, Frame.reads_empty, by simp⟩
  | leaf h =>
    obtain ⟨v, y, z, hv, hy, hz, rfl⟩ := hw
    exact ⟨v, y, z, .leaf t (Expr.isOperand_of_leaf? h), hv, hy, hz, h, rfl⟩
  | minus h =>
    obtain ⟨v, y, z, hv, hy, hz, rfl⟩ := hw
    obtain rfl : z = [] := hz.eq_nil
    exact ⟨v, y, [t], hv, hy, ⟨[t], [], [], ⟨rfl, h⟩, rfl, rfl, rfl⟩, by simp⟩
  | opening h =>
    obtain ⟨v, y, z, hv, hy, hz, rfl⟩ := hw
    exact ⟨v, y ++ z ++ [t], [], hv, ⟨y, z, t, hy, hz, Kind.isOpening_iff.mp h, rfl⟩, Frame.reads_empty, by simp⟩
  | sign h hop =>
    obtain ⟨v, y, z, p, hv, hy, hz, hp, rfl⟩ := hw
    exact ⟨v, y, z ++ p.tokens ++ [t], hv, hy, hz.await p hp (Kind.level?_eq_some_iff.mp h) hop, by simp⟩
  | closing h =>
    obtain ⟨v, y, z, p, hv, ⟨x, z', o, hx, hz', ho, rfl⟩, hz, hp, rfl⟩ := hw
    obtain ⟨q, hq, heq⟩ := hz.exists_sum p hp
    exact ⟨v, x, z', .group o ho q t (Kind.isClosing_iff.mp h), hv, hx, hz', heq, by simp [Phrase.tokens, hq]⟩
  | assigned h =>
    obtain ⟨v, y, z, p, ⟨u, x, q, ⟨b, rfl, hb⟩, hx, hq, rfl⟩, rfl, hz, hp, rfl⟩ := hw
    obtain ⟨s, hs, he⟩ := hz.exists_sum p hp
    obtain ⟨a, ha, hv⟩ := hx.exists_line hq s he
    obtain ⟨b', ht, hb'⟩ := Body.exists_assign hb a hv t h
    exact ⟨b', by simp [ht, ha, hs], by simpa [program] using hb'⟩

/-- A passage keeps it. -/
theorem Reads.steps {r' : Reading} : ∀ {v w : List Token} {r : Reading}, Reads w r →
    r.steps v = .ok r' → Reads (w ++ v) r'
  | [], w, r, hw, h => by
    cases h
    simpa using hw
  | t :: v, w, r, hw, h => by
    cases hs : r.step t with
    | ok r'' =>
      rw [steps_cons_of_ok hs] at h
      simpa using Reads.steps (hw.next (next_of_step hs)) h
    | error cause =>
      rw [steps_cons_of_error hs] at h
      cases h

/-- **A reading that comes to `end` has read a derivation** of the program it
holds. -/
theorem exists_derivation_of_steps {w : List Token} {r : Reading} (h : start.steps w = .ok r)
    (hr : r.phase = .ended) : ∃ d : Derivation, d.tokens = w ∧ d.program? = some r.program := by
  have hstart : Reads [] start := ⟨rfl, rfl, rfl⟩
  have hreads : Reads w r := hstart.steps h
  unfold Reads at hreads
  rw [hr] at hreads
  exact hreads

end Reading
end AssignLang
