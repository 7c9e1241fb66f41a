import RavenLang.Grammar.Program
import RavenLang.Proofs.Grammar.Program
import RavenLang.Proofs.Number.Digits

/-!
# The one ambiguity

An expression statement without a `;` before a `(` can end there or go on as a call.
The reader always goes on, and that never costs a program: whatever the statement
behind it is, it fits onto the call.
-/

namespace RavenLang.Grammar

/-! ## Where an expression statement may end -/

def Anywhere (_ _ : List Token) : Prop := True

def BeforeNoParen (_ rest : List Token) : Prop := ∀ t, rest.head? = some t → t.kind ≠ .openParen

def Longest (us rest : List Token) : Prop :=
  ∀ vs ws e, vs ++ ws = us ++ rest → Derives (.expr .assignment e) vs → vs.length ≤ us.length

/-! ## Longer phrases -/

namespace Derives

/-- What can be added behind every phrase of a level can be added behind every looser
phrase that does not end in an object literal: it goes to the operand at the end. -/
theorem extend {m : Level} {xs : List Token} (hm : m.rank ≤ 4)
    (hx : ∀ e us, Derives (.expr m e) us → ∃ e', Derives (.expr m e') (us ++ xs)) {l : Level} {e : Expr}
    {us : List Token} (h : Derives (.expr l e) us) (hl : l.rank ≤ m.rank) (hb : endsInBrace us = false) :
    ∃ e', Derives (.expr l e') (us ++ xs) := by
  have here {k : Level} {e : Expr} {us : List Token} (heq : k = m) (h : Derives (.expr k e) us) :
      ∃ e', Derives (.expr k e') (us ++ xs) := by
    subst heq
    exact hx e us h
  generalize hf : Form.expr l e = f at h
  induction h generalizing l e with
  | @tighter k e ts hp hd ih =>
    cases hf
    by_cases heq : k = m
    · exact here heq (.tighter hp hd)
    · obtain ⟨e', h⟩ := ih (Level.tighter_rank_le heq hl) hb rfl
      exact ⟨e', .tighter hp h⟩
  | @binary k left ts op right us hd hop hr _ ih =>
    cases hf
    by_cases heq : k = m
    · exact here heq (.binary hd hop hr)
    · rw [endsInBrace_append_cons, endsInBrace_cons hr.ne_nil] at hb
      obtain ⟨e', h⟩ := ih (Level.tighter_rank_le heq hl) hb rfl
      exact ⟨_, by simpa using Derives.binary hd hop h⟩
  | @assign target ts q value us hd hq hv _ ih =>
    cases hf
    by_cases heq : Level.assignment = m
    · exact here heq (.assign hd hq hv)
    · rw [endsInBrace_append_cons, endsInBrace_cons hv.ne_nil] at hb
      obtain ⟨e', h⟩ := ih hl hb rfl
      exact ⟨_, by simpa using Derives.assign hd hq h⟩
  | field hd hk hn =>
    cases hf
    exact here (Level.rank_inj (Nat.le_antisymm hl hm)) (.field hd hk hn)
  | index hd ho hk hc =>
    cases hf
    exact here (Level.rank_inj (Nat.le_antisymm hl hm)) (.index hd ho hk hc)
  | call hd ho ha hc =>
    cases hf
    exact here (Level.rank_inj (Nat.le_antisymm hl hm)) (.call hd ho ha hc)
  | object _ _ hc =>
    cases hf
    simp [endsInBrace_cons, hc] at hb
  | name | string | number | group =>
    cases hf
    exact absurd (Nat.le_trans hl hm) (by decide)
  | _ => cases hf

theorem extend_suffix {e : Expr} {us vs : List Token} {s : Suffix} (h : Derives (.expr .assignment e) us)
    (hb : endsInBrace us = false) (hs : s.Spelled vs) : ∃ e', Derives (.expr .assignment e') (us ++ vs) :=
  h.extend (m := .postfixed) (Nat.le_refl _) (fun _ _ he => ⟨_, hs.derives he⟩) (Nat.zero_le _) hb

theorem extend_operand {e right : Expr} {l : Level} {us vs : List Token} {op : Token}
    (h : Derives (.expr .assignment e) us) (hb : endsInBrace us = false) (hop : op.isOperator l.operators)
    (hr : Derives (.expr l.tighter right) vs) : ∃ e', Derives (.expr .assignment e') (us ++ op :: vs) :=
  h.extend (Level.rank_of_operator hop).2 (fun _ _ he => ⟨_, .binary he hop hr⟩) (Nat.zero_le _) hb

theorem extend_value {e value : Expr} {us vs : List Token} {q : Token} (h : Derives (.expr .assignment e) us)
    (hq : q.kind = .equals) (hv : Derives (.expr .assignment value) vs) :
    ∃ e', Derives (.expr .assignment e') (us ++ q :: vs) := by
  generalize hf : Form.expr .assignment e = f at h
  induction h generalizing e with
  | tighter _ hd =>
    cases hf
    exact ⟨_, .assign hd hq hv⟩
  | assign hd hq' _ _ ih =>
    cases hf
    obtain ⟨e', h⟩ := ih rfl
    exact ⟨_, by simpa using Derives.assign hd hq' h⟩
  | binary _ hop =>
    cases hf
    simp [Level.operators, Token.isOperator] at hop
  | _ => cases hf

theorem head?_append {l : Level} {e : Expr} {us : List Token} (h : Derives (.expr l e) us) (vs : List Token) :
    (us ++ vs).head? = us.head? := by
  obtain ⟨t, us, rfl⟩ := List.exists_cons_of_ne_nil h.ne_nil
  rfl

theorem endsInBrace_append_eq_false {l : Level} {e : Expr} {vs : List Token} (h : Derives (.expr l e) vs)
    (hl : 2 ≤ l.rank) (us : List Token) : endsInBrace (us ++ vs) = false := by
  rw [endsInBrace_append h.ne_nil]
  exact h.endsInBrace_eq_false hl

/-- An expression in parentheses is an argument for the expression before it, and what
follows the parentheses follows the call. -/
theorem merge {e e' : Expr} {l : Level} {us vs : List Token} (hu : Derives (.expr .assignment e) us)
    (hb : endsInBrace us = false) (hv : Derives (.expr l e') vs) {t : Token} (ht : vs.head? = some t)
    (hp : t.kind = .openParen) : ∃ e'', Derives (.expr .assignment e'') (us ++ vs) := by
  generalize hf : Form.expr l e' = f at hv
  induction hv generalizing l e' with
  | name hk | string hk | number hk | object hk =>
    obtain rfl : _ = t := Option.some.inj ht
    rw [hp] at hk
    cases hk
  | group ho hd hc => exact hu.extend_suffix hb (.call ho (.argument hd) hc)
  | tighter _ _ ih =>
    cases hf
    exact ih ht rfl
  | field hd hk hn ih =>
    cases hf
    obtain ⟨e'', h⟩ := ih (hd.head?_append _ ▸ ht) rfl
    rw [← List.append_assoc]
    exact h.extend_suffix (hd.endsInBrace_append_eq_false (by decide) us) (.field hk hn)
  | index hd ho hk hc ih =>
    cases hf
    obtain ⟨e'', h⟩ := ih (hd.head?_append _ ▸ ht) rfl
    rw [← List.append_assoc]
    exact h.extend_suffix (hd.endsInBrace_append_eq_false (by decide) us) (.index ho hk hc)
  | call hd ho ha hc ih =>
    cases hf
    obtain ⟨e'', h⟩ := ih (hd.head?_append _ ▸ ht) rfl
    rw [← List.append_assoc]
    exact h.extend_suffix (hd.endsInBrace_append_eq_false (by decide) us) (.call ho ha hc)
  | binary hd hop hr ih =>
    cases hf
    obtain ⟨e'', h⟩ := ih (hd.head?_append _ ▸ ht) rfl
    rw [← List.append_assoc]
    exact h.extend_operand (hd.endsInBrace_append_eq_false (Level.rank_of_operator hop).1 us) hop hr
  | assign hd hq hv ih =>
    cases hf
    obtain ⟨e'', h⟩ := ih (hd.head?_append _ ▸ ht) rfl
    rw [← List.append_assoc]
    exact h.extend_value hq hv
  | _ => cases hf

end Derives

/-! ## Choices -/

/-- A derivation may be read as one that ends statements elsewhere, if it ends them at
places that are allowed there too. -/
theorem Spells.mono {E E' : List Token → List Token → Prop}
    (h : ∀ e us ss rest, Derives (.expr .assignment e) us → Spells E' (.statements ss) rest →
      E us rest → E' us rest)
    {b : Block} {ts : List Token} (hb : Spells E b ts) : Spells E' b ts := by
  induction hb with
  | undefined hk hn hl => exact .undefined hk hn hl
  | defined hk hn hq hd hl => exact .defined hk hn hq hd hl
  | function hk hn ho hd hc hps hst _ hl ih => exact .function hk hn ho hd hc hps hst ih hl
  | terminated hd hl => exact .terminated hd hl
  | bare hd => exact .bare hd
  | nil => exact .nil
  | cons hs hend _ ihs ih =>
    refine .cons ihs (fun hc => ?_) ih
    subst hc
    cases hs with
    | bare hd => exact h _ _ _ _ hd ih (hend rfl)

theorem Spells.expression_of_paren {E : List Token → List Token → Prop} {ss : List Stmt} {ts : List Token}
    (h : Spells E (.statements ss) ts) {t : Token} (ht : ts.head? = some t) (hp : t.kind = .openParen) :
    ∃ e vs, Derives (.expr .assignment e) vs ∧ vs.head? = some t ∧
      ((∃ last rest ss', ts = vs ++ last :: rest ∧ last.kind = .semicolon ∧ Spells E (.statements ss') rest) ∨
        ∃ rest ss', ts = vs ++ rest ∧ E vs rest ∧ Spells E (.statements ss') rest) := by
  cases h with
  | nil => cases ht
  | @cons closed s us ss rest hs hend hss =>
    cases hs with
    | undefined hk | function hk =>
      obtain rfl : _ = t := Option.some.inj ht
      rw [hp] at hk
      cases hk
    | defined hk =>
      obtain rfl : _ = t := Option.some.inj ht
      simp [hp] at hk
    | @terminated e vs last hd hl =>
      have hts : vs ++ [last] ++ rest = vs ++ last :: rest := by simp
      exact ⟨e, vs, hd, hd.head?_append _ ▸ hts ▸ ht, .inl ⟨last, rest, ss, hts, hl, hss⟩⟩
    | @bare e vs hd => exact ⟨e, us, hd, hd.head?_append _ ▸ ht, .inr ⟨rest, ss, rfl, hend rfl, hss⟩⟩

theorem Spells.stops_or_paren {E : List Token → List Token → Prop} {ss : List Stmt} {rest : List Token}
    (h : Spells E (.statements ss) rest) (us : List Token) :
    Level.assignment.Stops us rest ∨
      endsInBrace us = false ∧ ∃ t, rest.head? = some t ∧ t.kind = .openParen := by
  cases hr : rest.head? with
  | none => exact .inl (by rw [List.head?_eq_none_iff.1 hr]; exact Level.stops_nil _ _)
  | some t =>
    have hk := h.statements_head hr
    unfold opensStatement at hk
    have hq : ∀ u, rest.head? = some u → u.kind ≠ .equals := by
      intro u hu
      obtain rfl : t = u := Option.some.inj (hr.symm.trans hu)
      grind
    by_cases hp : t.kind = .openParen
    · cases hb : endsInBrace us with
      | true => exact .inl ⟨.inl hb, fun _ => hq⟩
      | false => exact .inr ⟨rfl, t, rfl, hp⟩
    · refine .inl ⟨.inr fun u hu => ?_, fun _ => hq⟩
      obtain rfl : t = u := Option.some.inj (hr.symm.trans hu)
      apply Level.goesOn_eq_false <;> grind

theorem longest_of_stops {e : Expr} {us rest : List Token} (hd : Derives (.expr .assignment e) us)
    (hstop : Level.assignment.Stops us rest) : Longest us rest := by
  intro vs ws e' hvs hd'
  refine Nat.le_of_not_lt fun hlt => ?_
  obtain ⟨xs, rfl, -⟩ | ⟨xs, rfl, rfl⟩ := List.append_eq_append_iff.1 hvs
  · rw [List.length_append] at hlt
    omega
  · have hne : xs ≠ [] := by
      intro h
      subst h
      simp at hlt
    obtain ⟨x, xs, rfl⟩ := List.exists_cons_of_ne_nil hne
    -- read alone, the longer head would have to stop at both places
    have hlong : Reads (expression default (us ++ x :: xs)) e' [] :=
      (expression_exact _ _ _).2 ⟨_, by simp, hd', Level.stops_nil _ _⟩
    have hshort : Reads (expression default (us ++ x :: xs)) e (x :: xs) :=
      (expression_exact _ _ _).2 ⟨us, rfl, hd, (Level.stops_congr rfl).1 hstop⟩
    cases (hlong.unique hshort).2

theorem stops_of_longest {e : Expr} {us rest : List Token} {ss : List Stmt}
    {E : List Token → List Token → Prop} (hd : Derives (.expr .assignment e) us)
    (hss : Spells E (.statements ss) rest) (hl : Longest us rest) :
    Level.assignment.Stops us rest := by
  refine (hss.stops_or_paren us).resolve_right ?_
  intro h
  obtain ⟨hb, t, ht, hp⟩ := h
  obtain ⟨e', vs, hd', hv, hrest⟩ := hss.expression_of_paren ht hp
  obtain ⟨e'', hmerged⟩ := hd.merge hb hd' hv hp
  obtain ⟨ws, rfl⟩ : ∃ ws, rest = vs ++ ws := by
    rcases hrest with ⟨last, ws, _, rfl, _⟩ | ⟨ws, _, rfl, _⟩
    · exact ⟨_, rfl⟩
    · exact ⟨_, rfl⟩
  have hle := hl (us ++ vs) ws e'' (by simp) hmerged
  have := List.length_pos_iff.2 hd'.ne_nil
  rw [List.length_append] at hle
  omega

/-- Going on with every expression as long as possible loses no program. -/
theorem exists_stops_of_anywhere {b : Block} {ts : List Token} (h : Spells Anywhere b ts) :
    match b with
    | .statement closed _ => ∃ s, Spells Level.assignment.Stops (.statement closed s) ts
    | .statements _ => ∃ ss, Spells Level.assignment.Stops (.statements ss) ts := by
  induction h with
  | undefined hk hn hl => exact ⟨_, .undefined hk hn hl⟩
  | defined hk hn hq hd hl => exact ⟨_, .defined hk hn hq hd hl⟩
  | function hk hn ho hd hc hps hst _ hl ih =>
    obtain ⟨body, hb⟩ := ih
    exact ⟨_, .function hk hn ho hd hc hps hst hb hl⟩
  | terminated hd hl => exact ⟨_, .terminated hd hl⟩
  | bare hd => exact ⟨_, .bare hd⟩
  | nil => exact ⟨_, .nil⟩
  | @cons closed s us ss rest _ _ _ ihs ih =>
    obtain ⟨s', hs⟩ := ihs
    obtain ⟨ss', hss⟩ := ih
    cases closed with
    | true => exact ⟨_, .cons hs (by simp) hss⟩
    | false =>
      cases hs with
      | @bare e _ hd =>
        rcases hss.stops_or_paren us with hstop | ⟨hb, t, ht, hp⟩
        · exact ⟨_, .cons (.bare hd) (fun _ => hstop) hss⟩
        · -- the next statement becomes a part of this one
          obtain ⟨e', vs, hd', hv, hrest⟩ := hss.expression_of_paren ht hp
          obtain ⟨e'', hmerged⟩ := hd.merge hb hd' hv hp
          rcases hrest with ⟨last, ws, ss'', rfl, hl, hss⟩ | ⟨ws, ss'', rfl, hstop, hss⟩
          · exact ⟨_, by simpa using Spells.cons (.terminated hmerged hl) (by simp) hss⟩
          · have hstop' := (Level.stops_append hd'.ne_nil us ws).2 hstop
            exact ⟨_, by simpa using Spells.cons (.bare hmerged) (fun _ => hstop') hss⟩

end RavenLang.Grammar

namespace RavenLang

open Grammar in
/-- The reader's language is the grammar's, and its tree is the derivation in which
every expression statement without a `;` goes on as long as it can. Where no such
statement stands before a parenthesis there is no other derivation. -/
theorem Program.ofTokens_derivations (ts : List Token) (hend : ∀ t ∈ ts, t.kind ≠ .endOfInput)
    (hnum : ∀ t ∈ ts, t.kind = .number → Number.IsDigits t.text.toList) :
    (∀ p, Program.ofTokens ts = .ok p → Spells Anywhere (.statements p) ts) ∧
      ((∃ p, Spells Anywhere (.statements p) ts) → ∃ p, Program.ofTokens ts = .ok p) ∧
      (∀ p, Program.ofTokens ts = .ok p ↔ Spells Longest (.statements p) ts) ∧
      (∀ p, Spells BeforeNoParen (.statements p) ts → Program.ofTokens ts = .ok p) ∧
      ∀ t ∈ ts, t.kind = .number → Derives (.expr .primary
        (.number t.span (Number.ofDecimal false (Number.digitsValue t.text.toList) 0))) [t] := by
  have hread (p : Program) : Program.ofTokens ts = .ok p ↔
      Spells Level.assignment.Stops (.statements p) ts := by
    rw [ofTokens_eq, Token.beforeEnd_eq_self hend, program_eq_ok]
  refine ⟨fun p h => ?_, fun ⟨p, h⟩ => ?_, fun p => ?_, fun p h => ?_, fun t ht hk => ?_⟩
  · exact ((hread p).1 h).mono fun _ _ _ _ _ _ _ => trivial
  · obtain ⟨q, hq⟩ := exists_stops_of_anywhere h
    exact ⟨q, (hread q).2 hq⟩
  · rw [hread]
    constructor
    · exact .mono fun _ _ _ _ hd _ hs => longest_of_stops hd hs
    · exact .mono fun _ _ _ _ hd hss hl => stops_of_longest hd hss hl
  · refine (hread p).2 (h.mono fun _ us _ _ _ hss hn => (hss.stops_or_paren us).resolve_right ?_)
    intro h
    obtain ⟨-, t, ht, hp⟩ := h
    exact hn t ht hp
  · exact .number hk (Number.read?_of_isDigits (hnum t ht hk))

open Grammar in
/-- `f (1)` is derived as two statements too, and read all the same. -/
theorem Program.ofTokens_call_or_two_statements :
    let f : Token := ⟨.identifier, "f", ⟨0, 1⟩⟩
    let o : Token := ⟨.openParen, "(", ⟨2, 3⟩⟩
    let one : Token := ⟨.number, "1", ⟨3, 4⟩⟩
    let c : Token := ⟨.closeParen, ")", ⟨4, 5⟩⟩
    let x := Number.ofDecimal false (Number.digitsValue one.text.toList) 0
    (∀ t ∈ [f, o, one, c], t.kind ≠ .endOfInput) ∧
      (∀ t ∈ [f, o, one, c], t.kind = .number → Number.IsDigits t.text.toList) ∧
      Spells Anywhere (.statements [.expr ⟨0, 1⟩ (.name ⟨0, 1⟩ "f"), .expr ⟨2, 5⟩ (.number ⟨2, 5⟩ x)])
        [f, o, one, c] ∧
      ∃ p, Program.ofTokens [f, o, one, c] = .ok p := by
  intro f o one c x
  have hend : ∀ t ∈ [f, o, one, c], t.kind ≠ .endOfInput := by decide
  have hnum : ∀ t ∈ [f, o, one, c], t.kind = .number → Number.IsDigits t.text.toList := by decide
  have h := ofTokens_derivations [f, o, one, c] hend hnum
  have hone : Derives (.expr .primary (.number one.span x)) [one] := h.2.2.2.2 one (by simp) rfl
  have loosen {e : Expr} {us : List Token} (he : Derives (.expr .primary e) us) :
      Derives (.expr .assignment e) us :=
    .tighter (by decide) (.tighter (by decide) (.tighter (by decide)
      (.tighter (by decide) (.tighter (by decide) he))))
  have hf : Derives (.expr .assignment (.name ⟨0, 1⟩ "f")) [f] := loosen (.name (t := f) rfl)
  have hg : Derives (.expr .assignment (.number ⟨2, 5⟩ x)) [o, one, c] :=
    loosen (.group (o := o) (c := c) rfl (loosen hone) rfl)
  have hs : Spells Anywhere (.statements [.expr ⟨0, 1⟩ (.name ⟨0, 1⟩ "f"), .expr ⟨2, 5⟩ (.number ⟨2, 5⟩ x)])
      [f, o, one, c] :=
    .cons (.bare hf) (fun _ => trivial) (.cons (.bare hg) (fun _ => trivial) .nil)
  exact ⟨hend, hnum, hs, h.2.1 ⟨_, hs⟩⟩

end RavenLang
