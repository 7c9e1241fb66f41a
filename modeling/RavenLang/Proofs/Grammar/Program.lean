import RavenLang.Proofs.Grammar.Exact

/-!
# Programs are read as the grammar derives them

An expression statement without a `;` goes on as long as its expression can.
-/

namespace RavenLang.Grammar

variable {n : Nat} {stop : Span}

/-! ## What statements begin with -/

def opensStatement (t : Token) : Prop :=
  t.kind = .letWord ∨ t.kind = .constWord ∨ t.kind = .fnWord ∨ t.kind = .identifier ∨ t.kind = .string ∨
    t.kind = .number ∨ t.kind = .openParen ∨ t.kind = .openBrace

theorem Derives.opensStatement {l : Level} {e : Expr} {us : List Token} (h : Derives (.expr l e) us) :
    ∃ t, us.head? = some t ∧ opensStatement t := by
  obtain ⟨t, ht, hk⟩ := h.head
  exact ⟨t, ht, by unfold Grammar.opensStatement; grind⟩

namespace Spells

variable {Ends : List Token → List Token → Prop} {closed : Bool} {s : Stmt} {ss : List Stmt} {us : List Token}

theorem head (h : Spells Ends (.statement closed s) us) : ∃ t, us.head? = some t ∧ opensStatement t := by
  cases h with
  | undefined hk => exact ⟨_, rfl, .inl hk⟩
  | defined hk => exact ⟨_, rfl, by unfold opensStatement; grind⟩
  | function hk => exact ⟨_, rfl, .inr (.inr (.inl hk))⟩
  | terminated he =>
    obtain ⟨t, ht, hk⟩ := he.opensStatement
    exact ⟨t, by simp [ht], hk⟩
  | bare he => exact he.opensStatement

theorem statements_head (h : Spells Ends (.statements ss) us) {t : Token} (ht : us.head? = some t) :
    opensStatement t := by
  cases h with
  | nil => cases ht
  | cons hs =>
    obtain ⟨u, hu, hk⟩ := hs.head
    simp only [List.head?_append, hu, Option.some_or, Option.some.injEq] at ht
    exact ht ▸ hk

end Spells

/-! ## Statements -/

theorem parameterNames_eq_ok {es : List Expr} {ps : List String} :
    parameterNames es = .ok ps ↔ es.map Expr.name? = ps.map some := by
  induction es generalizing ps with
  | nil => cases ps <;> simp [parameterNames]
  | cons e es ih =>
    rw [parameterNames]
    cases he : e.name? with
    | none => cases ps <;> simp [he]
    | some name =>
      cases ps with
      | nil => cases h : parameterNames es <;> simp [Except.map]
      | cons p ps => cases h : parameterNames es <;> simp_all [Except.map]

theorem reads_bind_parameterNames {α : Type} {m : Nat} {es : List Expr} {f : List String → Reading α m}
    {v : α} {rest : List Token} :
    Reads (parameterNames es >>= f) v rest ↔ ∃ ps, es.map Expr.name? = ps.map some ∧ Reads (f ps) v rest := by
  simp only [reads_bind, parameterNames_eq_ok]

theorem reads_declaration {k : Token} {ts : List Token} {s : Stmt} {rest : List Token} :
    Reads (declaration stop k ts) s rest ↔
      (∃ n last, ts = n :: last :: rest ∧ n.kind = .identifier ∧ last.kind = .semicolon ∧
        k.kind ≠ .constWord ∧
        s = .declare (k.span.merge last.span) false n.text none) ∨
      ∃ n q e us last, ts = n :: q :: (us ++ last :: rest) ∧ n.kind = .identifier ∧ q.kind = .equals ∧
        Derives (.expr .assignment e) us ∧ last.kind = .semicolon ∧
        s = .declare (k.span.merge last.span) (k.kind = .constWord) n.text (some e) := by
  simp only [declaration, reads_bind_phrase, reads_token]
  constructor
  · intro h
    obtain ⟨n, _, _, ⟨rfl, hn⟩, hr⟩ := h
    split at hr
    · next p hp =>
      obtain ⟨last, us, _⟩ := p
      obtain ⟨rfl, hl⟩ := accept_eq_some.1 hp
      split at hr
      · exact (not_reads_throw _ _ _ hr).elim
      · next hk =>
        obtain ⟨rfl, rfl⟩ := (reads_pure _ _ _).1 hr
        exact .inl ⟨n, last, rfl, hn, hl, hk, by simp [Phrase.upTo, hk]⟩
    · simp only [reads_bind_phrase, reads_token, reads_pure, Phrase.upTo] at hr
      obtain ⟨q, _, _, ⟨rfl, hq⟩, e, _, _, he, last, _, _, ⟨rfl, hl⟩, rfl, rfl⟩ := hr
      obtain ⟨us, rfl, hd, -⟩ := (expression_exact _ _ _).1 he
      exact .inr ⟨n, q, e, us, last, rfl, hn, hq, hd, hl, rfl⟩
  · intro h
    obtain ⟨n, last, rfl, hn, hl, hk, rfl⟩ | ⟨n, q, e, us, last, rfl, hn, hq, hd, hl, rfl⟩ := h
    · exact ⟨n, _, by simp, ⟨rfl, hn⟩, by simp [accept, hl, hk, Phrase.upTo]⟩
    · refine ⟨n, _, by simp, ⟨rfl, hn⟩, ?_⟩
      have he : Reads (expression stop (us ++ last :: rest)) e (last :: rest) :=
        (expression_exact _ _ _).2 ⟨us, rfl, hd, Level.stops_of_closes (by simp [Level.closes, hl]) _ _⟩
      simp only [accept, hq, reduceCtorEq, if_false, reads_bind_phrase, reads_token, reads_pure, Phrase.upTo]
      exact ⟨q, _, by simp, ⟨rfl, hq⟩, e, _, he.lt, he, last, rest, by simp, ⟨rfl, hl⟩, rfl, rfl⟩

def StatementAt (s : Stmt) (us rest : List Token) : Prop :=
  ∃ closed, Spells Level.assignment.Stops (.statement closed s) us ∧
    (closed = false → Level.assignment.Stops us rest ∧ ∀ t, rest.head? = some t → t.kind ≠ .semicolon)

theorem reads_expressionStatement {ts : List Token} {s : Stmt} {rest : List Token} :
    Reads (expressionStatement stop ts) s rest ↔ ∃ e us, Derives (.expr .assignment e) us ∧
      ((∃ last, ts = us ++ last :: rest ∧ last.kind = .semicolon ∧ s = .expr (e.span.merge last.span) e) ∨
        (ts = us ++ rest ∧ Level.assignment.Stops us rest ∧ (∀ t, rest.head? = some t → t.kind ≠ .semicolon) ∧
          s = .expr e.span e)) := by
  simp only [expressionStatement, reads_bind_phrase]
  constructor
  · intro h
    obtain ⟨e, _, _, he, hr⟩ := h
    obtain ⟨us, rfl, hd, hstop⟩ := (expression_exact _ _ _).1 he
    split at hr
    · next p hp =>
      obtain ⟨last, _, _⟩ := p
      obtain ⟨rfl, hl⟩ := accept_eq_some.1 hp
      obtain ⟨rfl, rfl⟩ := (reads_pure _ _ _).1 hr
      exact ⟨e, us, hd, .inl ⟨last, rfl, hl, rfl⟩⟩
    · next hn =>
      obtain ⟨rfl, rfl⟩ := (reads_pure _ _ _).1 hr
      exact ⟨e, us, hd, .inr ⟨rfl, hstop, accept_eq_none.1 hn, rfl⟩⟩
  · intro h
    obtain ⟨e, us, hd, ⟨last, rfl, hl, rfl⟩ | ⟨rfl, hstop, hne, rfl⟩⟩ := h
    · have he : Reads (expression stop (us ++ last :: rest)) e (last :: rest) :=
        (expression_exact _ _ _).2 ⟨us, rfl, hd, Level.stops_of_closes (by simp [Level.closes, hl]) _ _⟩
      exact ⟨e, _, he.lt, he, by simp [accept, hl, Phrase.upTo]⟩
    · have he : Reads (expression stop (us ++ rest)) e rest := (expression_exact _ _ _).2 ⟨us, rfl, hd, hstop⟩
      exact ⟨e, _, he.lt, he, by simp [accept_eq_none.2 hne, Phrase.map]⟩

/-! ## Bodies -/

/-- What stands behind a list of statements: nothing, or the brace that closes a body. -/
def EndsBody (rest : List Token) : Prop := ∀ t, rest.head? = some t → t.kind = .closeBrace

theorem EndsBody.stops_iff {rest : List Token} (h : EndsBody rest) {l : Level} {us ws : List Token} :
    l.Stops us (ws ++ rest) ↔ l.Stops us ws := by
  cases ws with
  | cons t ws => exact Level.stops_congr rfl
  | nil =>
    refine iff_of_true ?_ (Level.stops_nil l us)
    cases rest with
    | nil => exact Level.stops_nil l us
    | cons t rest => exact Level.stops_of_closes (by simp [Level.closes, h t rfl]) us rest

variable {starts : Token → Bool}

theorem spells_of_repeated {rest us : List Token} {ss : List Stmt} (hr : EndsBody rest)
    (h : Repeated (Started starts StatementAt) rest ss us) :
    Spells Level.assignment.Stops (.statements ss) us := by
  induction h with
  | nil => exact .nil
  | cons hs _ ih =>
    obtain ⟨⟨closed, hs, hstop⟩, -⟩ := hs
    exact .cons hs (fun hc => hr.stops_iff.1 (hstop hc).1) ih

theorem repeated_of_spells {rest us : List Token} {ss : List Stmt} (hr : EndsBody rest)
    (hstarts : ∀ t, opensStatement t → starts t = true)
    (h : Spells Level.assignment.Stops (.statements ss) us) :
    Repeated (Started starts StatementAt) rest ss us := by
  generalize hf : Block.statements ss = f at h
  induction h generalizing ss with
  | nil =>
    cases hf
    exact .nil
  | @cons closed s us ss ws hs hstop hss _ ih =>
    cases hf
    have hsemi : ∀ t, (ws ++ rest).head? = some t → t.kind ≠ .semicolon := by
      intro t ht
      cases hw : ws.head? with
      | none =>
        obtain rfl := List.head?_eq_none_iff.1 hw
        simp [hr t ht]
      | some u =>
        simp only [List.head?_append, hw, Option.some_or, Option.some.injEq] at ht
        have hu := hss.statements_head hw
        unfold opensStatement at hu
        grind
    obtain ⟨t, ht, hk⟩ := hs.head
    exact .cons ⟨⟨closed, hs, fun hc => ⟨hr.stops_iff.2 (hstop hc), hsemi⟩⟩, t, ht, hstarts t hk⟩ (ih rfl)
  | _ => cases hf

theorem not_closeBrace_of_opensStatement (t : Token) (h : opensStatement t) :
    decide (t.kind ≠ .closeBrace) = true := by
  unfold opensStatement at h
  grind

theorem reads_functionDeclaration {sub : Reader Stmt n} (hs : Exact StatementAt sub) {k : Token}
    {ts : List Token} {h : ts.length < n} {s : Stmt} {rest : List Token} :
    Reads (functionDeclaration stop sub k ts h) s rest ↔
      ∃ n o es us c parameters start body vs last,
        ts = n :: o :: (us ++ c :: start :: (vs ++ last :: rest)) ∧ n.kind = .identifier ∧
          o.kind = .openParen ∧
          Derives (.arguments es) us ∧ c.kind = .closeParen ∧ es.map Expr.name? = parameters.map some ∧
          start.kind = .openBrace ∧ Spells Level.assignment.Stops (.statements body) vs ∧
          last.kind = .closeBrace ∧
          s = .function (k.span.merge last.span) n.text parameters body := by
  simp only [functionDeclaration, reads_bind_phrase, reads_bind_phrases, reads_bind_parameterNames,
    reads_token,
    reads_pure, arguments_exact (expressions_exact _) _ _ _ _, readsMany_iff hs]
  constructor
  · intro h
    obtain ⟨n, _, _, ⟨rfl, hn⟩, ⟨es, span⟩, _, _, ⟨_, rfl, o, us, c, rfl, ho, hd, hc, -⟩, ps, hps, start, _,
      _, ⟨rfl, hst⟩, body, _, _, ⟨vs, rfl, hrep, -⟩, last, _, _, ⟨rfl, hl⟩, rfl, rfl⟩ := h
    exact ⟨n, o, es, us, c, ps, start, body, vs, last, by simp, hn, ho, hd, hc, hps, hst,
      spells_of_repeated (by simp [EndsBody, hl]) hrep, hl, rfl⟩
  · intro h
    obtain ⟨n, o, es, us, c, ps, start, body, vs, last, rfl, hn, ho, hd, hc, hps, hst, hbody, hl, rfl⟩ := h
    have hend : EndsBody (last :: rest) := by simp [EndsBody, hl]
    have hrep := repeated_of_spells hend not_closeBrace_of_opensStatement hbody
    exact ⟨n, _, by simp, ⟨rfl, hn⟩, (es, o.span.merge c.span), start :: (vs ++ last :: rest), by simp; omega,
      ⟨o :: (us ++ [c]), by simp, o, us, c, rfl, ho, hd, hc, rfl⟩, ps, hps, start, _, by simp, ⟨rfl, hst⟩,
        body,
      last :: rest, by simp, ⟨vs, rfl, hrep, by simp [hl]⟩, last, rest, by simp, ⟨rfl, hl⟩, rfl, rfl⟩

section
variable {sub : Reader Stmt n} (hs : Exact StatementAt sub) {ts : List Token} {h : ts.length ≤ n} {s : Stmt}
  {rest : List Token}
include hs

theorem statementOver_sound (hr : Reads (statementOver stop sub ts h) s rest) :
    ∃ us, ts = us ++ rest ∧ StatementAt s us rest := by
  have hexpr (hr : Reads (expressionStatement stop ts) s rest) :
      ∃ us, ts = us ++ rest ∧ StatementAt s us rest := by
    obtain ⟨e, us, hd, ⟨last, rfl, hl, rfl⟩ | ⟨rfl, hstop, hne, rfl⟩⟩ := reads_expressionStatement.1 hr
    · exact ⟨us ++ [last], by simp, true, .terminated hd hl, by simp⟩
    · exact ⟨us, rfl, false, .bare hd, fun _ => ⟨hstop, hne⟩⟩
  cases ts with
  | nil => exact hexpr hr
  | cons k ts =>
    rw [statementOver] at hr
    split at hr
    · next hk =>
      simp only [reads_bind_phrase, reads_pure, Phrase.behind, reads_declaration] at hr
      obtain ⟨_, _, _, ⟨n, last, rfl, hn, hl, hne, rfl⟩ | ⟨n, q, e, us, last, rfl, hn, hq, hd, hl, rfl⟩,
        rfl, rfl⟩ := hr
      · exact ⟨[k, n, last], rfl, true, .undefined (hk.resolve_right hne) hn hl, by simp⟩
      · exact ⟨k :: n :: q :: (us ++ [last]), by simp, true, .defined hk hn hq hd hl, by simp⟩
    · split at hr
      · next hk =>
        simp only [reads_bind_phrase, reads_pure, Phrase.behind, reads_functionDeclaration hs] at hr
        obtain ⟨_, _, _, ⟨n, o, es, us, c, ps, start, body, vs, last, rfl, hn, ho, hd, hc, hps, hst, hb, hl,
          rfl⟩, rfl,
          rfl⟩ := hr
        exact ⟨k :: n :: o :: (us ++ c :: start :: (vs ++ [last])), by simp, true,
          .function hk hn ho hd hc hps hst hb hl, by simp⟩
      · exact hexpr hr

omit hs in
theorem statementOver_of_expression {e : Expr} {us vs : List Token} (hd : Derives (.expr .assignment e) us)
    (hts : ts = us ++ vs) (hr : Reads (expressionStatement stop ts) s rest) :
    Reads (statementOver stop sub ts h) s rest := by
  obtain ⟨t, ht, hk⟩ := hd.head
  obtain ⟨us, rfl⟩ := List.head?_eq_some_iff.1 ht
  obtain rfl : ts = t :: (us ++ vs) := hts
  rw [statementOver, if_neg (by grind), if_neg (by grind)]
  exact hr

theorem statementOver_complete {us : List Token} (hts : ts = us ++ rest) (hst : StatementAt s us rest) :
    Reads (statementOver stop sub ts h) s rest := by
  obtain ⟨closed, hsp, hstop⟩ := hst
  cases hsp with
  | @undefined k n last hk hn hl =>
    obtain rfl : ts = k :: n :: last :: rest := hts
    rw [statementOver, if_pos (.inl hk)]
    simp only [reads_bind_phrase, reads_pure, Phrase.behind, reads_declaration]
    exact ⟨_, rest, by simp only [List.length_cons]; omega, .inl ⟨n, last, rfl, hn, hl, by simp [hk], rfl⟩,
      rfl, rfl⟩
  | @defined k n q e us last hk hn hq hd hl =>
    obtain rfl : ts = k :: n :: q :: (us ++ last :: rest) := by simpa using hts
    rw [statementOver, if_pos hk]
    simp only [reads_bind_phrase, reads_pure, Phrase.behind, reads_declaration]
    exact ⟨_, rest, by simp; omega, .inr ⟨n, q, e, us, last, rfl, hn, hq, hd, hl, rfl⟩, rfl, rfl⟩
  | @function k n o es us c ps start body vs last hk hn ho hd hc hps hst hb hl =>
    obtain rfl : ts = k :: n :: o :: (us ++ c :: start :: (vs ++ last :: rest)) := by simpa using hts
    rw [statementOver, if_neg (by simp [hk]), if_pos hk]
    simp only [reads_bind_phrase, reads_pure, Phrase.behind, reads_functionDeclaration hs]
    exact ⟨_, rest, by simp; omega,
      ⟨n, o, es, us, c, ps, start, body, vs, last, rfl, hn, ho, hd, hc, hps, hst, hb, hl, rfl⟩, rfl, rfl⟩
  | @terminated e us last hd hl =>
    have hts : ts = us ++ last :: rest := by simpa using hts
    exact statementOver_of_expression hd hts (reads_expressionStatement.2
      ⟨e, us, hd, .inl ⟨last, hts, hl, rfl⟩⟩)
  | @bare e us hd =>
    obtain ⟨hstop, hne⟩ := hstop rfl
    exact statementOver_of_expression hd hts (reads_expressionStatement.2
      ⟨e, us, hd, .inr ⟨hts, hstop, hne, rfl⟩⟩)

end

theorem statement_exact (ts : List Token) (s : Stmt) (rest : List Token) :
    Reads (statement stop ts) s rest ↔ ∃ us, ts = us ++ rest ∧ StatementAt s us rest := by
  obtain ⟨k, hk⟩ : ∃ k, ts.length = k := ⟨_, rfl⟩
  induction k using Nat.strongRecOn generalizing ts s rest with
  | ind k ih =>
  subst hk
  have hs : Exact StatementAt fun us (_ : us.length < ts.length) => statement stop us :=
    fun us h v r => ih _ h us v r rfl
  rw [statement]
  exact ⟨statementOver_sound hs, fun ⟨_, hts, hst⟩ => statementOver_complete hs hts hst⟩

theorem statements_exact (n : Nat) : Exact StatementAt fun us (_ : us.length < n) => statement stop us :=
  fun us _ s rest => statement_exact us s rest

/-- The reader accepts exactly the programs whose expression statements go on as long
as they can. -/
theorem program_eq_ok {ts : List Token} {p : Program} :
    program stop ts = .ok p ↔ Spells Level.assignment.Stops (.statements p) ts := by
  rw [program, map_values_eq_ok]
  simp only [readsMany_iff (statements_exact _)]
  constructor
  · intro h
    obtain ⟨rest, us, rfl, hrep, hend⟩ := h
    obtain rfl : rest = [] := List.head?_eq_none_iff.1
      (Option.eq_none_iff_forall_ne_some.2 fun t ht => by simpa using hend t ht)
    simpa using spells_of_repeated (by simp [EndsBody]) hrep
  · intro h
    exact ⟨[], ts, by simp, repeated_of_spells (by simp [EndsBody]) (by simp) h, by simp⟩

end RavenLang.Grammar
