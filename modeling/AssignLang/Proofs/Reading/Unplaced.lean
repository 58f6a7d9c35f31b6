/-
# Reading two lists of the same kinds and texts

Two token lists that agree in kinds and texts are read side by side: either both
are programs, the same one but for the places of the tokens, or both readings
stop at tokens with the same number, for the same reason. The token that the
diagnostic points at, which need not be the one it is about, has the same number
in both lists as well.

The two lists are kept as one list of pairs, so that a number is a place in it.

Key definitions: `Token.unplaced`, `Corresponds`, `SameProgram`.
Key theorems: `Reading.run_corresponds`, `parse_corresponds`.
-/
import AssignLang.Program.Run
import AssignLang.Proofs.Reading.Places
import AssignLang.Proofs.Reading.Tokens

namespace AssignLang

/-- The token with its kind and text and nothing else. -/
def Token.unplaced (t : Token) : Token := .sample t.kind t.text

theorem Token.unplaced_eq_iff {t u : Token} :
    t.unplaced = u.unplaced ↔ t.kind = u.kind ∧ t.text = u.text := by
  simp [unplaced, sample]

theorem keepsLexeme_unplaced : KeepsLexeme Token.unplaced := fun _ => ⟨rfl, rfl⟩

/-- The program without the places of its tokens. -/
def Program.unplaced (p : Program) : Program := p.mapTokens Token.unplaced

/-- Two results agree but for places, the tokens of which are paired in `pairs`:
both are values, which `E` relates, or both are diagnostics with the same cause,
at the two tokens of a pair. -/
inductive Corresponds {α : Type} (E : α → α → Prop) (pairs : List (Token × Token)) :
    Except Diagnostic α → Except Diagnostic α → Prop
  | ok {a b : α} (h : E a b) : Corresponds E pairs (.ok a) (.ok b)
  | error {z : Token × Token} {cause : Cause} (hz : z ∈ pairs) :
      Corresponds E pairs (.error (z.1.fault cause)) (.error (z.2.fault cause))

/-- Related values that are known to be the results. -/
theorem Corresponds.imp {α : Type} {E F : α → α → Prop} {pairs : List (Token × Token)}
    {x y : Except Diagnostic α} (h : Corresponds E pairs x y)
    (himp : ∀ a b, x = .ok a → y = .ok b → E a b → F a b) : Corresponds F pairs x y := by
  cases h with
  | ok h => exact .ok (himp _ _ rfl rfl h)
  | error hz => exact .error hz

/-- A diagnostic is at the first token of a pair. -/
theorem Corresponds.exists_of_error {α : Type} {E : α → α → Prop} {pairs : List (Token × Token)}
    {d : Diagnostic} {y : Except Diagnostic α} (h : Corresponds E pairs (.error d) y) :
    ∃ z ∈ pairs, ∃ cause, d = z.1.fault cause ∧ y = .error (z.2.fault cause) := by
  generalize hx : Except.error d = x at h
  cases h with
  | ok h => cases hx
  | error hz => exact ⟨_, hz, _, Except.error.inj hx, rfl⟩

/-- A value is related to a value. -/
theorem Corresponds.exists_of_ok {α : Type} {E : α → α → Prop} {pairs : List (Token × Token)}
    {a : α} {y : Except Diagnostic α} (h : Corresponds E pairs (.ok a) y) :
    ∃ b, y = .ok b ∧ E a b := by
  generalize hx : Except.ok a = x at h
  cases h with
  | ok h =>
    obtain rfl := Except.ok.inj hx
    exact ⟨_, rfl, h⟩
  | error hz => cases hx

/-- Two tokens that differ in their places at most. -/
def SameToken (z : Token × Token) : Prop := z.1.unplaced = z.2.unplaced

theorem SameToken.kind_eq {z : Token × Token} (h : SameToken z) : z.1.kind = z.2.kind :=
  (Token.unplaced_eq_iff.mp h).1

theorem SameToken.isVisible_eq {z : Token × Token} (h : SameToken z) :
    z.1.isVisible = z.2.isVisible := by
  rw [Token.isVisible, Token.isVisible, h.kind_eq]

/-- Two lists that agree in kinds and texts are the two sides of a list of pairs. -/
theorem exists_pairs : ∀ {ts us : List Token}, ts.map Token.unplaced = us.map Token.unplaced →
    (ts.zip us).map Prod.fst = ts ∧ (ts.zip us).map Prod.snd = us ∧ ∀ z ∈ ts.zip us, SameToken z
  | [], [], _ => ⟨rfl, rfl, by simp⟩
  | [], u :: us, h => by cases h
  | t :: ts, [], h => by cases h
  | t :: ts, u :: us, h => by
    obtain ⟨hz, hrest⟩ := List.cons.inj h
    obtain ⟨hfst, hsnd, hsame⟩ := exists_pairs hrest
    exact ⟨congrArg (List.cons t) hfst, congrArg (List.cons u) hsnd,
      List.forall_mem_cons.mpr ⟨hz, hsame⟩⟩

/-! ### One token -/

namespace Reading

/-- A finished reading looks at no token. -/
theorem finish_mapTokens {f : Token → Token} (hf : KeepsLexeme f) (r : Reading) (t : Token) :
    (r.mapTokens f).finish (f t) = (r.finish t).map (Program.mapTokens f) := by
  obtain ⟨ds, as, phase⟩ := r
  have hreject := reject_mapTokens hf ⟨ds, as, phase⟩ t (Program.mapTokens f)
  cases phase with
  | ended =>
    refine congrArg Except.ok ?_
    exact program_mapTokens ⟨ds, as, .ended⟩
  | _ => exact hreject

theorem map_eq_map {ε α β : Type} {f : α → β} {x y : Except ε α} (h : x.map f = y.map f) :
    (∃ a b, x = .ok a ∧ y = .ok b ∧ f a = f b) ∨ ∃ e, x = .error e ∧ y = .error e := by
  cases x with
  | ok a =>
    cases y with
    | ok b => exact .inl ⟨a, b, rfl, rfl, Except.ok.inj h⟩
    | error e => cases h
  | error e =>
    cases y with
    | ok b => cases h
    | error e' =>
      cases h
      exact .inr ⟨e, rfl, rfl⟩

/-- The last visible tokens have the same number. -/
theorem find?_pairs : ∀ {passed : List (Token × Token)}, (∀ z ∈ passed, SameToken z) →
    ((passed.map Prod.fst).find? Token.isVisible = none ∧
        (passed.map Prod.snd).find? Token.isVisible = none) ∨
      ∃ z ∈ passed, (passed.map Prod.fst).find? Token.isVisible = some z.1 ∧
        (passed.map Prod.snd).find? Token.isVisible = some z.2
  | [], _ => .inl ⟨rfl, rfl⟩
  | z :: passed, h => by
    obtain ⟨hz, hrest⟩ := List.forall_mem_cons.mp h
    rw [List.map_cons, List.map_cons, List.find?_cons, List.find?_cons, ← hz.isVisible_eq]
    cases hvisible : z.1.isVisible with
    | true => exact .inr ⟨z, List.mem_cons_self, rfl, rfl⟩
    | false =>
      refine (find?_pairs hrest).imp_right ?_
      rintro ⟨y, hy, hfind⟩
      exact ⟨y, List.mem_cons_of_mem z hy, hfind⟩

/-- Diagnostics about tokens with the same number point at tokens with the same
number. -/
theorem fault_corresponds {α : Type} {E : α → α → Prop} {pairs passed : List (Token × Token)}
    {z : Token × Token} {cause : Cause} (hsame : ∀ y ∈ z :: passed, SameToken y)
    (hpairs : ∀ y ∈ z :: passed, y ∈ pairs) :
    Corresponds E pairs (.error (fault (passed.map Prod.fst) z.1 cause))
      (.error (fault (passed.map Prod.snd) z.2 cause)) := by
  obtain ⟨hz, hpassed⟩ := List.forall_mem_cons.mp hsame
  have hpoint : ∃ y ∈ z :: passed, pointAt (passed.map Prod.fst) z.1 = y.1 ∧
      pointAt (passed.map Prod.snd) z.2 = y.2 := by
    unfold pointAt
    rw [← hz.isVisible_eq]
    cases z.1.isVisible with
    | true => exact ⟨z, List.mem_cons_self, rfl, rfl⟩
    | false =>
      rcases find?_pairs hpassed with ⟨hfst, hsnd⟩ | ⟨y, hy, hfst, hsnd⟩
      · rw [hfst, hsnd]
        exact ⟨z, List.mem_cons_self, rfl, rfl⟩
      · rw [hfst, hsnd]
        exact ⟨y, List.mem_cons_of_mem z hy, rfl, rfl⟩
  obtain ⟨y, hy, hfst, hsnd⟩ := hpoint
  have herror : Corresponds E pairs (.error (y.1.fault cause)) (.error (y.2.fault cause)) :=
    .error (hpairs y hy)
  unfold fault
  rw [hfst, hsnd]
  exact herror

/-! ### A run -/

/-- **Two readings side by side.** The tokens hold an end of the text, so the two
runs stop at one of them. -/
theorem run_corresponds {pairs : List (Token × Token)} (last last' : Token) :
    ∀ (zs passed : List (Token × Token)) {r r' : Reading},
      (∀ z ∈ pairs, SameToken z) → (∀ z ∈ zs, z ∈ pairs) → (∀ z ∈ passed, z ∈ pairs) →
      (∃ z ∈ zs, z.1.kind = .eof) → r.mapTokens Token.unplaced = r'.mapTokens Token.unplaced →
      Corresponds (fun p q => p.unplaced = q.unplaced) pairs
        (run last (passed.map Prod.fst) r (zs.map Prod.fst))
        (run last' (passed.map Prod.snd) r' (zs.map Prod.snd))
  | [], _, _, _, _, _, _, hend, _ => by simp at hend
  | z :: zs, passed, r, r', hsame, hzs, hpassed, hend, hr => by
    obtain ⟨hz, hrest⟩ := List.forall_mem_cons.mp hzs
    have hz' : ∀ y ∈ z :: passed, y ∈ pairs := List.forall_mem_cons.mpr ⟨hz, hpassed⟩
    have hfault : ∀ cause, Corresponds (fun p q => Program.unplaced p = q.unplaced) pairs
        (.error (fault (passed.map Prod.fst) z.1 cause))
        (.error (fault (passed.map Prod.snd) z.2 cause)) :=
      fun cause => fault_corresponds (fun y hy => hsame y (hz' y hy)) hz'
    have htoken : z.1.unplaced = z.2.unplaced := hsame z hz
    rw [List.map_cons, List.map_cons, run, run, ← (hsame z hz).kind_eq]
    by_cases hk : z.1.kind = .eof
    · rw [if_pos hk, if_pos hk]
      have hfinish : (r.finish z.1).map (Program.mapTokens Token.unplaced) =
          (r'.finish z.2).map (Program.mapTokens Token.unplaced) := by
        rw [← finish_mapTokens keepsLexeme_unplaced, hr, htoken,
          finish_mapTokens keepsLexeme_unplaced]
      rcases map_eq_map hfinish with ⟨p, q, hp, hq, hpq⟩ | ⟨cause, hcause, hcause'⟩
      · rw [hp, hq]
        exact .ok hpq
      · rw [hcause, hcause']
        exact hfault cause
    · rw [if_neg hk, if_neg hk]
      have hstep : (r.step z.1).map (mapTokens Token.unplaced) =
          (r'.step z.2).map (mapTokens Token.unplaced) := by
        rw [← step_mapTokens keepsLexeme_unplaced, hr, htoken,
          step_mapTokens keepsLexeme_unplaced]
      rcases map_eq_map hstep with ⟨a, b, ha, hb, hab⟩ | ⟨cause, hcause, hcause'⟩
      · rw [ha, hb]
        have hend' : ∃ y ∈ zs, y.1.kind = .eof := by
          obtain ⟨y, hy, hyk⟩ := hend
          rcases List.mem_cons.mp hy with rfl | hy
          · exact absurd hyk hk
          · exact ⟨y, hy, hyk⟩
        exact run_corresponds last last' zs (z :: passed) hsame hrest hz' hend' hab
      · rw [hcause, hcause']
        exact hfault cause

/-- The end after the tokens is looked at only if there is none among them. -/
theorem run_eq_of_eof (last last' : Token) : ∀ {ts passed : List Token} {r : Reading},
    (∃ t ∈ ts, t.kind = .eof) → run last passed r ts = run last' passed r ts
  | [], _, _, h => by simp at h
  | t :: ts, passed, r, h => by
    unfold run
    by_cases hk : t.kind = .eof
    · rw [if_pos hk, if_pos hk]
    · rw [if_neg hk, if_neg hk]
      have hend : ∃ u ∈ ts, u.kind = .eof := by
        obtain ⟨u, hu, huk⟩ := h
        rcases List.mem_cons.mp hu with rfl | hu
        · exact absurd huk hk
        · exact ⟨u, hu, huk⟩
      cases r.step t with
      | ok r' => exact run_eq_of_eof last last' hend
      | error cause => rfl

/-- The end after the tokens may as well be the last of them. -/
theorem run_concat {last : Token} (hlast : last.kind = .eof) :
    ∀ {ts passed : List Token} {r : Reading},
      run last passed r (ts ++ [last]) = run last passed r ts
  | [], passed, r => if_pos hlast
  | t :: ts, passed, r => by
    rw [List.cons_append, run, run]
    by_cases hk : t.kind = .eof
    · rw [if_pos hk, if_pos hk]
    · rw [if_neg hk, if_neg hk]
      cases r.step t with
      | ok r' => exact run_concat hlast
      | error cause => rfl

end Reading

theorem Token.kind_endAfter (ts : List Token) : (Token.endAfter ts).kind = .eof := by
  unfold Token.endAfter
  split <;> rfl

theorem exists_eof_withEnd (ts : List Token) : ∃ t ∈ withEnd ts, t.kind = .eof := by
  unfold withEnd
  split
  · next h =>
    obtain ⟨t, ht, hk⟩ := (Option.any_eq_true _ _).mp h
    exact ⟨t, List.mem_of_getLast? ht, by simpa using hk⟩
  · exact ⟨Token.endAfter ts, by simp, Token.kind_endAfter ts⟩

/-- The tokens with their end are all that a reading looks at. -/
theorem parse_eq_run_withEnd (ts : List Token) (last : Token) :
    parse ts = Reading.start.run last [] (withEnd ts) := by
  rw [← Reading.run_eq_of_eof (Token.endAfter ts) last (exists_eof_withEnd ts), parse]
  unfold withEnd
  split
  · rfl
  · rw [Reading.run_concat (Token.kind_endAfter ts)]

/-- Whether there is an end to add depends on the kind of the last token. -/
theorem withEnd_unplaced {ts us : List Token}
    (h : ts.map Token.unplaced = us.map Token.unplaced) :
    (withEnd ts).map Token.unplaced = (withEnd us).map Token.unplaced := by
  have hlast : ∀ vs : List Token, vs.getLast?.any (fun t => t.kind == .eof) =
      (vs.map Token.unplaced).getLast?.any fun t => t.kind == .eof := by
    intro vs
    rw [List.getLast?_map, Option.any_map]
    rfl
  have hadded : ∀ vs : List Token, (Token.endAfter vs).unplaced = .sample .eof "" := by
    intro vs
    unfold Token.endAfter
    split <;> rfl
  unfold withEnd
  rw [hlast ts, hlast us, h]
  split
  · exact h
  · rw [List.map_append, List.map_append, h, List.map_singleton, List.map_singleton, hadded, hadded]

/-! ### Whole texts -/

/-- What a program keeps of two sides of pairs are the two sides of some of the
pairs. -/
theorem kept_pairs {zs : List (Token × Token)} (h : ∀ z ∈ zs, SameToken z) :
    ∃ ks : List (Token × Token), (∀ z ∈ ks, z ∈ zs) ∧ kept (beforeEnd (zs.map Prod.fst)) = ks.map Prod.fst ∧
      kept (beforeEnd (zs.map Prod.snd)) = ks.map Prod.snd := by
  induction zs with
  | nil => exact ⟨[], by simp, rfl, rfl⟩
  | cons z zs ih =>
    obtain ⟨hz, hrest⟩ := List.forall_mem_cons.mp h
    obtain ⟨ks, hmem, hfst, hsnd⟩ := ih hrest
    have hkind := hz.kind_eq
    have hmem' : ∀ y ∈ ks, y ∈ z :: zs := fun y hy => List.mem_cons_of_mem z (hmem y hy)
    by_cases hend : z.1.kind = .eof
    · exact ⟨[], by simp, by simp [beforeEnd, hend, kept], by simp [beforeEnd, ← hkind, hend, kept]⟩
    · have hbefore : ∀ (t : Token) (ts : List Token), t.kind = z.1.kind →
          beforeEnd (t :: ts) = t :: beforeEnd ts := by
        intro t ts ht
        simp [beforeEnd, ht, hend]
      rw [List.map_cons, List.map_cons, hbefore z.1 _ rfl, hbefore z.2 _ hkind.symm]
      cases hkept : z.1.kind.isKept with
      | false =>
        have hkept' : z.2.kind.isKept = false := by rw [← hkind, hkept]
        rw [kept_cons_of_not_isKept hkept, kept_cons_of_not_isKept hkept', hfst, hsnd]
        exact ⟨ks, hmem', rfl, rfl⟩
      | true =>
        have hkept' : z.2.kind.isKept = true := by rw [← hkind, hkept]
        rw [kept_cons_of_isKept hkept, kept_cons_of_isKept hkept', hfst, hsnd]
        exact ⟨z :: ks, List.forall_mem_cons.mpr ⟨List.mem_cons_self, hmem'⟩, rfl, rfl⟩

/-- Two programs that agree but for the places of their tokens, of which those
with the same number are pairs. -/
structure SameProgram (pairs : List (Token × Token)) (p q : Program) : Prop where
  unplaced_eq : p.unplaced = q.unplaced
  tokens_mem : ∀ z ∈ p.tokens.zip q.tokens, z ∈ pairs

/-- **Kinds and texts decide what is read**, and which token a diagnostic points
at. -/
theorem parse_corresponds {ts us : List Token}
    (h : ts.map Token.unplaced = us.map Token.unplaced) :
    Corresponds (SameProgram (ts.zip us)) ((withEnd ts).zip (withEnd us)) (parse ts) (parse us) := by
  obtain ⟨hfst, hsnd, hsame⟩ := exists_pairs (withEnd_unplaced h)
  have hend : ∃ z ∈ (withEnd ts).zip (withEnd us), z.1.kind = .eof := by
    obtain ⟨t, ht, hk⟩ := exists_eof_withEnd ts
    rw [← hfst] at ht
    obtain ⟨z, hz, rfl⟩ := List.mem_map.mp ht
    exact ⟨z, hz, hk⟩
  have hrun := Reading.run_corresponds (Token.endAfter ts) (Token.endAfter us) _ []
    (r := .start) hsame (fun z hz => hz) (by simp) hend rfl
  rw [hfst, hsnd] at hrun
  rw [List.map_nil, List.map_nil, ← parse_eq_run_withEnd, ← parse_eq_run_withEnd] at hrun
  obtain ⟨hts, hus, hsame⟩ := exists_pairs h
  refine hrun.imp fun p q hp hq hpq => ⟨hpq, ?_⟩
  obtain ⟨ks, hmem, hkts, hkus⟩ := kept_pairs hsame
  rw [tokens_of_parse hp, tokens_of_parse hq]
  rw [hts] at hkts
  rw [hus] at hkus
  rw [hkts, hkus, ← List.zip_of_prod rfl rfl]
  exact hmem

end AssignLang
