import RavenLang.Proofs.Grammar.Ends

/-!
# Parsers move on

Wherever a parser starts it comes to an outcome, and where it returns it has taken a token. So does each
round of a loop, and a position grows with every round, up to the first end-of-input token and not beyond it.
-/

namespace RavenLang

/-! ## Statements of a program -/

mutual

/-- A statement and those of its body, at any depth. -/
def Stmt.count : Stmt → Nat
  | .function _ _ _ body => Stmt.countAll body + 1
  | .declare .. | .expr .. => 1

def Stmt.countAll : List Stmt → Nat
  | [] => 0
  | s :: ss => s.count + Stmt.countAll ss

end

theorem Stmt.length_le_countAll (ss : List Stmt) : ss.length ≤ Stmt.countAll ss := by
  induction ss with
  | nil => exact Nat.le_refl _
  | cons s ss ih =>
    have hs : 1 ≤ s.count := by cases s <;> simp [Stmt.count]
    rw [Stmt.countAll, List.length_cons]
    omega

namespace Grammar

def Block.count : Block → Nat
  | .statement _ s => s.count
  | .statements ss => Stmt.countAll ss

/-- Every statement has a token of its own. -/
theorem Spells.count_le {Ends : List Token → List Token → Prop} {b : Block} {us : List Token} (h : Spells Ends b us) :
    b.count ≤ us.length := by
  induction h with
  | undefined | defined | terminated => simp [Block.count, Stmt.count]
  | bare hd => exact List.length_pos_iff.2 hd.ne_nil
  | function _ _ _ _ _ _ _ _ _ ih =>
    simp only [Block.count, Stmt.count, List.length_cons, List.length_append] at ih ⊢
    omega
  | nil => exact Nat.le_refl _
  | cons _ _ _ ihs ih =>
    simp only [Block.count, Stmt.countAll, List.length_append] at ihs ih ⊢
    omega

end Grammar

namespace Parser

open Grammar

variable {α β : Type} {ts us : List Token} {m : Parser α} {n p q : Nat}

/-! ## From one place to another -/

/-- The parser has an outcome at this place. It does not step back, stops at the end at the latest, and stops
further on where it returns. -/
def MovesFrom (ts : List Token) (m : Parser α) (p : Nat) : Prop :=
  ∃ r q, m.outcome p = some (r, q) ∧ p ≤ q ∧ q ≤ finish ts ∧ ∀ v, r = .ok v → p < q

theorem Follows.movesFrom {f : β → α} {r : Reading β n} (h : Follows ts m p (ofPhrase f) r)
    (hn : p + n ≤ finish ts) : MovesFrom ts m p := by
  cases r with
  | error fault =>
    obtain ⟨q, hpq, hq, h⟩ := h
    exact ⟨_, q, h, hpq, hq, fun _ hv => nomatch hv⟩
  | ok phrase =>
    obtain ⟨q, hpq, hq, h⟩ := h
    refine ⟨_, q, h, hpq, hq.le, fun _ _ => ?_⟩
    have hlt : phrase.rest.length < n := phrase.rest_lt
    have hend : q + phrase.rest.length = finish ts := hq.length
    omega

/-- A keyword is not taken at the end, so what must follow it is missing. -/
theorem movesFrom_of_keyword {kind : TokenKind} {expected : String} {k : Token → Token → Parser α}
    (hkind : kind ≠ .endOfInput) (ha : Ahead ts p []) :
    MovesFrom ts ((Buffer.of ts).next >>= fun t => (Buffer.of ts).expect kind expected >>= k t) p := by
  have h : Follows ts ((Buffer.of ts).next >>= fun t => (Buffer.of ts).expect kind expected >>= k t) p (ofPhrase id)
      (.error (.unexpectedEnd expected (Token.endSpan ts)) : Reading α 0) := by
    refine .next_nil ha fun e _ _ => ?_
    obtain ⟨q, hpq, hq, h⟩ := Follows.expect hkind expected ha
    exact ⟨q, hpq, hq, by rw [outcome_bind, h]; rfl⟩
  exact h.movesFrom ha.le

/-! ## Expressions and statements -/

/-- The functions that read an expression, a part of one or a statement. -/
inductive Rule where
  | expression
  | assignment
  | object
  | entry
  | chain (c : Chain)
  | postfixed
  | arguments
  | primary
  | declaration
  | expressionStatement
  | functionDeclaration
  | statement

namespace Rule

def Value : Rule → Type
  | expression | assignment | object | chain _ | postfixed | primary => Expr
  | entry => Entry
  | arguments => List Expr × Span
  | declaration | expressionStatement | functionDeclaration | statement => Stmt

def parse (b : Buffer) : (r : Rule) → Parser r.Value
  | expression => b.expression
  | assignment => b.assignment
  | object => b.object
  | entry => b.entry
  | chain c => b.chain c
  | postfixed => b.postfixed
  | arguments => b.arguments
  | primary => b.primary
  | declaration => b.declaration
  | expressionStatement => b.expressionStatement
  | functionDeclaration => b.functionDeclaration
  | statement => b.statement

end Rule

theorem subexpression_follows (us : List Token) (_ : us.length < n) (p : Nat) (ha : Ahead ts p us) :
    Follows ts (Buffer.of ts).expression p (ofPhrase id) (Grammar.expression (Token.endSpan ts) us) :=
  expression_follows ha

theorem substatement_follows (us : List Token) (_ : us.length < n) (p : Nat) (ha : Ahead ts p us) :
    Follows ts (Buffer.of ts).statement p (ofPhrase id) (Grammar.statement (Token.endSpan ts) us) :=
  statement_follows ha

/-- What reads the operands of a level. -/
def Chain.operandReader (stop : Span) (c : Chain) :
    ∀ us : List Token, us.length ≤ n → Reading Expr us.length :=
  match c with
  | sum => Grammar.multiplicative stop fun us _ => Grammar.expression stop us
  | product => Grammar.postfixed stop fun us _ => Grammar.expression stop us

theorem tighter_follows (c : Chain) (us : List Token) (h : us.length ≤ n) (p : Nat) (ha : Ahead ts p us) :
    Follows ts ((Buffer.of ts).tighter c) p (ofPhrase id) (c.operandReader (Token.endSpan ts) us h) := by
  rw [Buffer.tighter.eq_def]
  cases c with
  | sum => exact multiplicative_follows subexpression_follows h ha
  | product => exact postfixed_follows subexpression_follows h ha

theorem declaration_movesFrom (ha : Ahead ts p us) : MovesFrom ts (Buffer.of ts).declaration p := by
  cases us with
  | nil =>
    rw [Buffer.declaration]
    exact movesFrom_of_keyword (by decide) ha
  | cons k us => exact (declaration_follows ha).movesFrom (Nat.le_of_succ_le ha.length.le)

theorem functionDeclaration_movesFrom (ha : Ahead ts p us) : MovesFrom ts (Buffer.of ts).functionDeclaration p := by
  cases us with
  | nil =>
    rw [Buffer.functionDeclaration]
    exact movesFrom_of_keyword (by decide) ha
  | cons k us =>
    exact (functionDeclaration_follows substatement_follows (Nat.lt_succ_self _) ha).movesFrom
      (Nat.le_of_succ_le ha.length.le)

theorem Rule.movesFrom (r : Rule) (ha : Ahead ts p us) : MovesFrom ts (r.parse (Buffer.of ts)) p := by
  cases r with
  | expression => exact (expression_follows ha).movesFrom ha.length.le
  | assignment => exact (assignment_follows subexpression_follows (Nat.le_refl _) ha).movesFrom ha.length.le
  | object => exact (object_follows subexpression_follows (Nat.le_refl _) ha).movesFrom ha.length.le
  | entry => exact (entry_follows subexpression_follows (Nat.lt_succ_self _) ha).movesFrom ha.length.le
  | chain c => exact (chain_follows (tighter_follows c) (Nat.le_refl _) ha).movesFrom ha.length.le
  | postfixed => exact (postfixed_follows subexpression_follows (Nat.le_refl _) ha).movesFrom ha.length.le
  | arguments => exact (arguments_follows subexpression_follows (Nat.le_refl _) ha).movesFrom ha.length.le
  | primary => exact (primary_follows subexpression_follows (Nat.le_refl _) ha).movesFrom ha.length.le
  | declaration => exact declaration_movesFrom ha
  | expressionStatement => exact (expressionStatement_follows ha).movesFrom ha.length.le
  | functionDeclaration => exact functionDeclaration_movesFrom ha
  | statement => exact (statement_follows ha).movesFrom ha.length.le

/-! ## Loops -/

namespace Loop

theorem round_movesFrom (l : Loop) (s : l.State) {t : Token} (ha : Ahead ts p (t :: us)) (h : l.goes t = true) :
    MovesFrom ts (l.round (Buffer.of ts) s) p := by
  have hlt : (t :: us).length < us.length + 2 := Nat.lt_succ_self _
  have hn := ha.length.le
  cases l with
  | arguments => exact ((nextArgument_follows subexpression_follows hlt ha).value (Array.push s)).movesFrom hn
  | entries => exact ((entry_follows subexpression_follows hlt ha).value (Array.push s)).movesFrom hn
  | operands c => exact (operand_follows (tighter_follows c) hlt ha s).movesFrom hn
  | suffixes => exact (suffix_follows subexpression_follows hlt ha h s).movesFrom hn
  | body | statements => exact ((statement_follows ha).value (Array.push s)).movesFrom hn

end Loop

/-- Rounds of a loop that lead from a place to another. Each begins at a token the loop goes on at, where the
one before it stopped, and stops further on. -/
inductive Rounds (ts : List Token) (l : Loop) : Nat → l.State → Nat → Nat → l.State → Prop
  | none {p s} : Rounds ts l p s 0 p s
  | next {p q q' n t s s₁ s'} : (Buffer.of ts).token? p = some t → l.goes t = true →
      (l.round (Buffer.of ts) s).outcome p = some (.ok s₁, q) → p < q → q ≤ finish ts →
      Rounds ts l q s₁ n q' s' → Rounds ts l p s (n + 1) q' s'

/-- The loop makes rounds up to a token it does not go on at, and ends there, or up to a round that stops at
a fault, and stops as well. -/
def Loop.Ends (ts : List Token) (l : Loop) (s : l.State) (p : Nat) : Prop :=
  ∃ n q s' t, Rounds ts l p s n q s' ∧ p + n ≤ q ∧ q ≤ finish ts ∧ (Buffer.of ts).token? q = some t ∧
    (l.goes t = false ∧ (l.run (Buffer.of ts) s).outcome p = some (.ok s', q) ∨
      l.goes t = true ∧ ∃ fault q', q ≤ q' ∧ q' ≤ finish ts ∧
        (l.round (Buffer.of ts) s').outcome q = some (.error fault, q') ∧
        (l.run (Buffer.of ts) s).outcome p = some (.error fault, q'))

theorem Loop.ends (l : Loop) (ha : Ahead ts p us) (s : l.State) : l.Ends ts s p := by
  induction us using (measure List.length).wf.induction generalizing p s with
  | h us ih =>
    cases us with
    | nil =>
      obtain ⟨e, he, hkind, -⟩ := ha.finish_eq
      refine ⟨0, p, s, e, .none, Nat.le_refl _, ha.le, he, .inl ⟨l.goes_of_end hkind, ?_⟩⟩
      rw [l.run_eq, outcome_bind_peek he, l.goes_of_end hkind]
      rfl
    | cons t us =>
      have ht := ha.head.1
      cases hgo : l.goes t with
      | false =>
        refine ⟨0, p, s, t, .none, Nat.le_refl _, ha.le, ht, .inl ⟨hgo, ?_⟩⟩
        rw [l.run_eq, outcome_bind_peek ht, hgo]
        rfl
      | true =>
        have hrun : (l.run (Buffer.of ts) s).outcome p =
            (l.round (Buffer.of ts) s >>= l.run (Buffer.of ts)).outcome p := by
          rw [l.run_eq, outcome_bind_peek ht, hgo]
          rfl
        obtain ⟨r, q, hround, hpq, hq, hlt⟩ := l.round_movesFrom s ha hgo
        rw [outcome_bind, hround] at hrun
        cases r with
        | error fault =>
          exact ⟨0, p, s, t, .none, Nat.le_refl _, ha.le, ht, .inr ⟨hgo, fault, q, hpq, hq, hround, hrun⟩⟩
        | ok s₁ =>
          have hlt := hlt s₁ rfl
          have hrest : Ahead ts q ((Token.beforeEnd ts).drop q) := ⟨hq, rfl⟩
          have hshorter : ((Token.beforeEnd ts).drop q).length < (t :: us).length := by
            have := ha.length
            have := hrest.length
            omega
          obtain ⟨n, q', s', t', hrounds, hn, hq', ht', hend⟩ := ih _ hshorter hrest s₁
          refine ⟨n + 1, q', s', t', .next ht hgo hround hlt hq hrounds, by omega, hq', ht', ?_⟩
          rw [hrun]
          exact hend

/-! ## Programs -/

theorem exists_token (hp : p ≤ finish ts) :
    ∃ t, (Buffer.of ts).token? p = some t ∧ (Token.closed ts)[p]? = some t ∧
      (t.kind = .endOfInput ↔ p = finish ts) := by
  have ha : Ahead ts p ((Token.beforeEnd ts).drop p) := ⟨hp, rfl⟩
  rw [← ha.token?_eq]
  cases hus : (Token.beforeEnd ts).drop p with
  | nil =>
    rw [hus] at ha
    obtain ⟨e, he, hkind, -⟩ := ha.finish_eq
    exact ⟨e, he, he, fun _ => ha.length, fun _ => hkind⟩
  | cons t us =>
    rw [hus] at ha
    obtain ⟨ht, hkind, hrest⟩ := ha.head
    exact ⟨t, ht, ht, fun h => absurd h hkind, fun h => absurd hrest.le (by omega)⟩

/-- What the parser does at a place until the end: every function moves on, so does each round of a loop, and
every loop is its rounds and ends. -/
structure MovesOn (ts : List Token) (p : Nat) : Prop where
  rules (r : Rule) : MovesFrom ts (r.parse (Buffer.of ts)) p
  rounds (l : Loop) (s : l.State) (t : Token) :
    (Buffer.of ts).token? p = some t → l.goes t = true → MovesFrom ts (l.round (Buffer.of ts) s) p
  loops (l : Loop) (s : l.State) :
    (l.run (Buffer.of ts) s = (Buffer.of ts).peek >>= fun t =>
      if l.goes t then l.round (Buffer.of ts) s >>= l.run (Buffer.of ts) else pure s) ∧ l.Ends ts s p

theorem movesOn (ha : Ahead ts p us) : MovesOn ts p where
  rules r := r.movesFrom ha
  rounds l s t ht hgo := by
    cases us with
    | nil =>
      obtain ⟨e, he, hkind, -⟩ := ha.finish_eq
      cases ht.symm.trans he
      exact absurd hgo (by simp [l.goes_of_end hkind])
    | cons u us =>
      cases ht.symm.trans ha.head.1
      exact l.round_movesFrom s ha hgo
  loops l s := ⟨l.run_eq _ s, l.ends ha s⟩

/-- A program that is read is read up to the end. -/
theorem program_outcome_ofTokens (ts : List Token) :
    ∃ q ≤ finish ts, (Buffer.of ts).program.outcome 0 = some (Program.ofTokens ts, q) ∧
      ∀ ss, Program.ofTokens ts = .ok ss → q = finish ts := by
  obtain ⟨q, hq, hrun⟩ := program_outcome ts
  rw [← Program.ofTokens_eq] at hrun
  refine ⟨q, hq, hrun, fun ss hss => ?_⟩
  obtain ⟨n, q', read, t, -, -, hq', ht, hend⟩ := Loop.statements.ends (.start ts) #[]
  rw [hss, Buffer.program, outcome_bind] at hrun
  obtain ⟨hgo, hok⟩ | ⟨-, fault, q₁, -, -, -, herror⟩ := hend
  · rw [Loop.run] at hok
    rw [hok] at hrun
    obtain rfl : q' = q := (Prod.mk.inj (Option.some.inj hrun)).2
    obtain ⟨t', ht', -, hkind⟩ := exists_token hq
    cases ht.symm.trans ht'
    exact hkind.1 (by simpa [Loop.goes] using hgo)
  · rw [Loop.run] at herror
    rw [herror] at hrun
    cases hrun

end Parser

namespace Program

open RavenLang.Parser Grammar

/-- A token list is parsed without a look beyond the tokens, wherever its first end-of-input token stands. At
each place until there a token is seen, and only the end is not taken. Whatever is parsed moves on, each round
of a loop too, and there are no more statements than tokens. What stands behind the end does not matter, and
the end itself only as the place of an early end. -/
theorem ofTokens_moves_on (ts : List Token) :
    (∀ p ≤ finish ts, MovesOn ts p ∧
      ∃ t, (Token.closed ts)[p]? = some t ∧ (t.kind = .endOfInput ↔ p = finish ts) ∧
        (Buffer.of ts).peek.outcome p = some (.ok t, p) ∧
        (Buffer.of ts).next.outcome p = some (.ok t, if p = finish ts then p else p + 1)) ∧
    (∃ q ≤ finish ts, (Buffer.of ts).program.outcome 0 = some (ofTokens ts, q) ∧
      ∀ ss, ofTokens ts = .ok ss → q = finish ts ∧ ss.length ≤ Stmt.countAll ss ∧ Stmt.countAll ss ≤ finish ts) ∧
    ofTokens (Token.closed ts) = ofTokens ts ∧
    (∀ us, Token.beforeEnd us = Token.beforeEnd ts →
      ofTokens us = (ofTokens ts).mapError (·.endingAt (Token.endSpan us))) ∧
    ((∀ t ∈ ts, t.kind ≠ .endOfInput) → ∀ e after, e.kind = .endOfInput →
      ofTokens (ts ++ e :: after) = (ofTokens ts).mapError (·.endingAt e.span)) := by
  refine ⟨fun p hp => ⟨movesOn ⟨hp, rfl⟩, ?_⟩, ?_, ?_, fun us => ofTokens_endingAt, fun hend e after he => ?_⟩
  · obtain ⟨t, ht, hget, hkind⟩ := exists_token hp
    refine ⟨t, hget, hkind, by rw [outcome_peek, ht]; rfl, ?_⟩
    have hnext := outcome_bind_next ht pure
    rw [bind_pure, outcome_pure] at hnext
    rw [hnext]
    simp only [hkind]
  · obtain ⟨q, hq, hrun, hend⟩ := program_outcome_ofTokens ts
    refine ⟨q, hq, hrun, fun ss hss => ⟨hend ss hss, Stmt.length_le_countAll ss, ?_⟩⟩
    rw [ofTokens_eq] at hss
    exact (program_eq_ok.1 hss).count_le
  · rw [ofTokens_eq, ofTokens_eq, Token.endSpan_closed, Token.beforeEnd_closed]
  · have hbefore : Token.beforeEnd (ts ++ e :: after) = Token.beforeEnd ts := by
      rw [Token.beforeEnd_append_cons hend he, Token.beforeEnd_eq_self hend]
    rw [ofTokens_endingAt hbefore, Token.endSpan_append_cons hend he]

/-- A call that is cut off ends too early at the end-of-input token behind it, though its parenthesis follows. -/
theorem ofTokens_moves_on_cut :
    let ts : List Token := [⟨.identifier, "f", ⟨0, 1⟩⟩, ⟨.openParen, "(", ⟨1, 2⟩⟩]
    let e : Token := ⟨.endOfInput, "", ⟨7, 9⟩⟩
    let after : List Token := [⟨.closeParen, ")", ⟨9, 10⟩⟩]
    (∀ t ∈ ts, t.kind ≠ .endOfInput) ∧ e.kind = .endOfInput ∧
      ofTokens ts = .error (.unexpectedEnd Expected.expression ⟨2, 2⟩) ∧
      ofTokens (ts ++ e :: after) = .error (.unexpectedEnd Expected.expression ⟨7, 9⟩) := by
  intro ts e after
  have hend : ∀ t ∈ ts, t.kind ≠ .endOfInput := by decide
  have hcheck : (match ofTokens ts with
      | .error fault => decide (fault = .unexpectedEnd Expected.expression ⟨2, 2⟩)
      | .ok _ => false) = true := by
    rw [ofTokens_eq]
    decide +kernel
  have hts : ofTokens ts = .error (.unexpectedEnd Expected.expression ⟨2, 2⟩) := by
    split at hcheck
    · next fault hf => rw [hf, of_decide_eq_true hcheck]
    · cases hcheck
  have hcut := (ofTokens_moves_on ts).2.2.2.2 hend e after rfl
  rw [hts] at hcut
  exact ⟨hend, rfl, hts, hcut⟩

end Program

end RavenLang
