import RavenLang.Proofs.Grammar.Stuck

/-!
# Which programs are rejected

The reader of programs fails exactly where reading statements gets stuck, and with the fault of that
place.
-/

namespace RavenLang.Grammar

variable {n : Nat} {stop : Span} {f : SyntaxFault}

theorem parameterNames_eq_error {es : List Expr} :
    parameterNames es = .error f ↔
      ∃ e, es.find? (·.name?.isNone) = some e ∧ f = .invalidParameter e.span := by
  induction es with
  | nil => simp [parameterNames]
  | cons e es ih =>
    rw [parameterNames]
    cases he : e.name? with
    | none => simp [he, eq_comm]
    | some name =>
      rw [List.find?_cons_of_neg (by simp [he]), ← ih]
      cases parameterNames es <;> simp [Except.map]

theorem bind_parameterNames_eq_error {α : Type} {es : List Expr} {g : List String → Except SyntaxFault α} :
    (parameterNames es >>= g) = .error f ↔
      (∃ e, es.find? (·.name?.isNone) = some e ∧ f = .invalidParameter e.span) ∨
        ∃ ps, es.map Expr.name? = ps.map some ∧ g ps = .error f := by
  simp only [bind_eq_error, parameterNames_eq_error, parameterNames_eq_ok]

theorem expressionStatement_eq_error {ts : List Token} :
    expressionStatement stop ts = .error f ↔ Stuck stop (.expr .assignment) ts f := by
  simp only [expressionStatement, bind_phrase_eq_error, expression_eq_error]
  refine or_iff_left ?_
  rintro ⟨e, rest, _, -, hr⟩
  split at hr <;> cases hr

theorem declaration_eq_error {k : Token} (hk : k.kind = .letWord ∨ k.kind = .constWord) {ts : List Token} :
    declaration stop k ts = .error f ↔ Stuck stop .statement (k :: ts) f := by
  simp only [declaration, bind_phrase_eq_error, token_eq_error, reads_token]
  constructor
  · rintro (⟨hn, rfl⟩ | ⟨n, us, _, ⟨rfl, hn⟩, hr⟩)
    · exact .variableName hk hn
    · split at hr
      · next p hp =>
        obtain ⟨last, vs, _⟩ := p
        obtain ⟨rfl, hl⟩ := accept_eq_some.1 hp
        split at hr
        · next hc =>
          obtain rfl := throw_eq_error.1 hr
          exact .missingInitializer hc hn hl
        · cases hr
      · next hnone =>
        have hsemi : Without .semicolon us := accept_eq_none.1 hnone
        simp only [bind_phrase_eq_error, token_eq_error, reads_token, pure_ne_error, and_false, exists_false,
          or_false, expression_eq_error, expression_exact _ _ _] at hr
        rcases hr with ⟨hq, rfl⟩ | ⟨q, us, _, ⟨rfl, hq⟩, hst | ⟨e, rest, _, ⟨us, rfl, hw⟩, hl, rfl⟩⟩
        · exact .initializer hk hn hsemi hq
        · exact .initial hk hn hq hst
        · exact .declarationEnd hk hn hq hw hl
  · intro hst
    have hkind : k.kind ≠ .fnWord := by rcases hk with hk | hk <;> simp [hk]
    have behind {q : Token} {us : List Token} (hq : q.kind = .equals) : accept .semicolon (q :: us) = none := by
      simp [accept, hq]
    generalize hg : Goal.statement = g, hts : k :: ts = us at hst
    cases hst with
    | variableName _ hn =>
      cases hts
      exact .inl ⟨hn, rfl⟩
    | @missingInitializer _ m last us hc hm hl =>
      cases hts
      refine .inr ⟨m, last :: us, length_lt_cons m _, ⟨rfl, hm⟩, ?_⟩
      simp [accept, hl, hc, throw_eq_error]
    | @initializer _ m us _ hm hsemi hq =>
      cases hts
      refine .inr ⟨m, us, length_lt_cons m us, ⟨rfl, hm⟩, ?_⟩
      simp only [accept_eq_none.2 hsemi, bind_phrase_eq_error, token_eq_error]
      exact .inl ⟨hq, trivial⟩
    | @initial _ m q us _ _ hm hq hst =>
      cases hts
      refine .inr ⟨m, q :: us, length_lt_cons m _, ⟨rfl, hm⟩, ?_⟩
      simp only [behind hq, bind_phrase_eq_error, reads_token, expression_eq_error]
      exact .inr ⟨q, us, length_lt_cons q us, ⟨rfl, hq⟩, .inl hst⟩
    | @declarationEnd _ m q e us rest _ hm hq hw hl =>
      cases hts
      refine .inr ⟨m, q :: (us ++ rest), length_lt_cons m _, ⟨rfl, hm⟩, ?_⟩
      simp only [behind hq, bind_phrase_eq_error, token_eq_error, reads_token, expression_exact _ _ _]
      exact .inr ⟨q, us ++ rest, length_lt_cons q _, ⟨rfl, hq⟩,
        .inr ⟨e, rest, hw.rest_lt, ⟨us, rfl, hw⟩, .inl ⟨hl, rfl⟩⟩⟩
    | functionName hf | parametersStart hf | parameters hf | invalidParameter hf | bodyStart hf | body hf =>
      cases hts
      exact absurd hf hkind
    | expression hlet hconst =>
      subst hts
      exact absurd hk (not_or.2 ⟨without_cons.1 hlet, without_cons.1 hconst⟩)
    | _ => cases hg

/-! ## Lists of statements -/

theorem StatementAt.head {s : Stmt} {us rest : List Token} (h : StatementAt s us rest) :
    ∃ t, us.head? = some t ∧ opensStatement t := by
  obtain ⟨closed, hs, -⟩ := h
  exact hs.head

section
variable {starts : Token → Bool} {inBody : Bool}
  (hstarts : ∀ t, starts t ↔ (inBody = true → t.kind ≠ .closeBrace))
include hstarts

theorem StatementAt.started {s : Stmt} {us rest : List Token} (h : StatementAt s us rest) :
    Started starts StatementAt s us rest := by
  obtain ⟨t, ht, hk⟩ := h.head
  refine ⟨h, t, ht, (hstarts t).2 fun _ => ?_⟩
  simpa using not_closeBrace_of_opensStatement t hk

theorem stuck_statements_iff {ts : List Token} :
    Stuck stop (.statements inBody) ts f ↔
      (∃ ss us t rest, ts = us ++ t :: rest ∧ Repeated (Started starts StatementAt) (t :: rest) ss us ∧
        starts t = true ∧ Stuck stop .statement (t :: rest) f) ∨
      inBody = true ∧ f = .unexpectedEnd Expected.bodyEnd stop ∧
        ∃ ss, Repeated (Started starts StatementAt) [] ss ts := by
  constructor
  · intro h
    generalize hg : Goal.statements inBody = g at h
    induction h with
    | bodyEnd =>
      cases hg
      exact .inr ⟨rfl, rfl, [], .nil⟩
    | @firstStatement _ ts _ hne hn hst =>
      cases hg
      obtain ⟨t, rest, rfl⟩ := List.exists_cons_of_ne_nil hne
      exact .inl ⟨[], [], t, rest, rfl, .nil, (hstarts t).2 fun h => without_cons.1 (hn h), hst⟩
    | @nextStatement _ s us ts _ hs _ ih =>
      cases hg
      have hs := hs.started hstarts
      rcases ih rfl with ⟨ss, vs, t, rest, rfl, hrep, ht, hst⟩ | ⟨hb, rfl, ss, hrep⟩
      · exact .inl ⟨s :: ss, us ++ vs, t, rest, by simp, .cons hs hrep, ht, hst⟩
      · exact .inr ⟨hb, rfl, s :: ss, .cons (by simpa using hs) hrep⟩
    | _ => cases hg
  · have behind {rest us : List Token} {ss : List Stmt} (h : Repeated (Started starts StatementAt) rest ss us)
        (hst : Stuck stop (.statements inBody) rest f) : Stuck stop (.statements inBody) (us ++ rest) f := by
      induction h with
      | nil => exact hst
      | cons hs _ ih =>
        rw [List.append_assoc]
        exact .nextStatement hs.1 ih
    rintro (⟨ss, us, t, rest, rfl, hrep, ht, hst⟩ | ⟨rfl, rfl, ss, hrep⟩)
    · refine behind hrep (.firstStatement (List.cons_ne_nil _ _) (fun h => ?_) hst)
      exact without_cons.2 ((hstarts t).1 ht h)
    · simpa using behind hrep .bodyEnd

end

section
variable {sub : Reader Stmt n} (hs : Exact StatementAt sub) (hb : Blames (Stuck stop .statement) sub)
include hs hb

theorem functionDeclaration_eq_error {k : Token} (hk : k.kind = .fnWord) {ts : List Token} {h : ts.length < n} :
    functionDeclaration stop sub k ts h = .error f ↔ Stuck stop .statement (k :: ts) f := by
  have hblame (m : Nat) :
      Blames (Stuck stop (.expr .assignment)) fun us (_ : us.length < m) => expression stop us :=
    fun us _ f => expression_eq_error us f
  have hstarts (t : Token) : decide (t.kind ≠ .closeBrace) = true ↔ (true = true → t.kind ≠ .closeBrace) := by
    simp
  simp only [functionDeclaration, bind_phrase_eq_error, bind_phrases_eq_error, bind_parameterNames_eq_error,
    token_eq_error, reads_token, pure_ne_error, and_false, exists_false, or_false, arguments_exact (expressions_exact _) _ _ _ _,
    arguments_blames (expressions_exact _) (hblame _) _ _ _, readsMany_iff hs, many_eq_error hs fun _ _ _ _ _ => hb _ _ _]
  constructor
  · rintro (⟨hn, rfl⟩ | ⟨m, us, _, ⟨rfl, hm⟩, (⟨ho, rfl⟩ | ⟨o, us, rfl, ho, hst⟩) |
      ⟨⟨es, span⟩, rest, _, ⟨_, rfl, o, us, c, rfl, ho, hd, hc, -⟩, hr⟩⟩)
    · exact .functionName hk hn
    · exact .parametersStart hk hm ho
    · exact .parameters hk hm ho hst
    · simp only [List.cons_append, List.append_assoc, List.nil_append]
      rcases hr with ⟨e, he, rfl⟩ | ⟨ps, hps, ⟨hn, rfl⟩ | ⟨start, vs, _, ⟨rfl, hstart⟩, hr⟩⟩
      · exact .invalidParameter hk hm ho hd hc he
      · exact .bodyStart hk hm ho hd hc hps hn
      · refine .body hk hm ho hd hc hps hstart ((stuck_statements_iff hstarts).2 ?_)
        rcases hr with hr | ⟨body, rest, _, ⟨ws, rfl, hrep, hend⟩, hn, rfl⟩
        · exact .inl hr
        · cases rest with
          | nil => exact .inr ⟨rfl, rfl, body, by simpa using hrep⟩
          | cons t rest => exact absurd (by simpa using hend t rfl) (without_cons.1 hn)
  · intro hst
    generalize hg : Goal.statement = g, hts : k :: ts = us at hst
    cases hst with
    | functionName _ hn =>
      cases hts
      exact .inl ⟨hn, rfl⟩
    | @parametersStart _ m us _ hm ho =>
      cases hts
      exact .inr ⟨m, us, length_lt_cons m us, ⟨rfl, hm⟩, .inl (.inl ⟨ho, rfl⟩)⟩
    | @parameters _ m o us _ _ hm ho hst =>
      cases hts
      exact .inr ⟨m, o :: us, length_lt_cons m _, ⟨rfl, hm⟩, .inl (.inr ⟨o, us, rfl, ho, hst⟩)⟩
    | @invalidParameter _ m o es us c e vs _ hm ho hd hc he =>
      cases hts
      refine .inr ⟨m, o :: (us ++ c :: vs), length_lt_cons m _, ⟨rfl, hm⟩, .inr ?_⟩
      exact ⟨(es, _), vs, by simp; omega, ⟨o :: (us ++ [c]), by simp, o, us, c, rfl, ho, hd, hc, rfl⟩,
        .inl ⟨e, he, rfl⟩⟩
    | @bodyStart _ m o es us c vs ps _ hm ho hd hc hps hn =>
      cases hts
      refine .inr ⟨m, o :: (us ++ c :: vs), length_lt_cons m _, ⟨rfl, hm⟩, .inr ?_⟩
      exact ⟨(es, _), vs, by simp; omega, ⟨o :: (us ++ [c]), by simp, o, us, c, rfl, ho, hd, hc, rfl⟩,
        .inr ⟨ps, hps, .inl ⟨hn, rfl⟩⟩⟩
    | @body _ m o es us c start vs _ ps _ hm ho hd hc hps hstart hst =>
      cases hts
      refine .inr ⟨m, o :: (us ++ c :: start :: vs), length_lt_cons m _, ⟨rfl, hm⟩, .inr ?_⟩
      refine ⟨(es, _), start :: vs, by simp; omega, ⟨o :: (us ++ [c]), by simp, o, us, c, rfl, ho, hd, hc, rfl⟩,
        .inr ⟨ps, hps, .inr ⟨start, vs, length_lt_cons start vs, ⟨rfl, hstart⟩, ?_⟩⟩⟩
      rcases (stuck_statements_iff hstarts).1 hst with hr | ⟨-, rfl, body, hrep⟩
      · exact .inl hr
      · exact .inr ⟨body, [], by simp, ⟨vs, by simp, hrep, by simp⟩, without_nil _, rfl⟩
    | variableName hl | initializer hl | initial hl | declarationEnd hl =>
      cases hts
      rcases hl with hl | hl <;> simp [hk] at hl
    | missingInitializer hl =>
      cases hts
      simp [hk] at hl
    | expression _ _ hfn =>
      subst hts
      exact absurd hk (without_cons.1 hfn)
    | _ => cases hg

theorem statementOver_blames : Blames (P := (·.length ≤ n)) (Stuck stop .statement) (statementOver stop sub) := by
  intro ts h f
  have hexpr (hlet : Without .letWord ts) (hconst : Without .constWord ts) (hfn : Without .fnWord ts) :
      Stuck stop .statement ts f ↔ Stuck stop (.expr .assignment) ts f := by
    refine ⟨fun hst => ?_, .expression hlet hconst hfn⟩
    generalize hg : Goal.statement = g at hst
    cases hst with
    | expression _ _ _ hst => exact hst
    | functionName hk | parametersStart hk | parameters hk | invalidParameter hk | bodyStart hk | body hk =>
      exact absurd hk (without_cons.1 hfn)
    | variableName hk | initializer hk | initial hk | declarationEnd hk =>
      exact absurd hk (not_or.2 ⟨without_cons.1 hlet, without_cons.1 hconst⟩)
    | missingInitializer hk => exact absurd hk (without_cons.1 hconst)
    | _ => cases hg
  cases ts with
  | nil => rw [statementOver, expressionStatement_eq_error, hexpr] <;> exact without_nil _
  | cons k ts =>
    rw [statementOver]
    split
    · next hk =>
      simp only [bind_phrase_eq_error, declaration_eq_error hk, pure_ne_error, and_false, exists_false, or_false]
    · next hlet =>
      split
      · next hk =>
        simp only [bind_phrase_eq_error, functionDeclaration_eq_error hs hb hk, pure_ne_error, and_false,
          exists_false, or_false]
      · next hfn =>
        rw [not_or] at hlet
        rw [expressionStatement_eq_error,
          hexpr (without_cons.2 hlet.1) (without_cons.2 hlet.2) (without_cons.2 hfn)]

end

theorem statement_eq_error (ts : List Token) (f : SyntaxFault) :
    statement stop ts = .error f ↔ Stuck stop .statement ts f := by
  obtain ⟨k, hk⟩ : ∃ k, ts.length = k := ⟨_, rfl⟩
  induction k using Nat.strongRecOn generalizing ts f with
  | ind k ih =>
  subst hk
  have hb : Blames (Stuck stop .statement) fun us (_ : us.length < ts.length) => statement stop us :=
    fun us h f => ih _ h us f rfl
  rw [statement]
  exact statementOver_blames (statements_exact _) hb ts (Nat.le_refl _) f

/-- Why a token list is not a program, exactly. -/
theorem program_eq_error {ts : List Token} :
    program stop ts = .error f ↔ Stuck stop (.statements false) ts f := by
  have hstarts : ∀ t : Token, true = true ↔ (false = true → t.kind ≠ .closeBrace) := by simp
  rw [program, map_values_eq_error, many_eq_error (statements_exact _) fun u us _ g _ => statement_eq_error (u :: us) g,
    stuck_statements_iff hstarts]
  exact (or_iff_left fun h => Bool.noConfusion h.1).symm

end RavenLang.Grammar
