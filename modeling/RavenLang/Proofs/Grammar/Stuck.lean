import RavenLang.Proofs.Grammar.Program

/-!
# Where reading gets stuck

Which token lists a reader rejects, and with which fault, without a reader: one rule for each place
at which reading gets stuck, behind a phrase that the grammar derives.
-/

namespace RavenLang.Grammar

/-- The first token, if there is one, is not of the kind. -/
def Without (kind : TokenKind) (ts : List Token) : Prop := ∀ t, ts.head? = some t → t.kind ≠ kind

/-- What is being read. Lists are read behind what opens them. -/
inductive Goal where
  | expr (level : Level)
  | arguments
  | entry
  | entries
  | statement
  | statements (inBody : Bool)

inductive Stuck (stop : Span) : Goal → List Token → SyntaxFault → Prop
  | tighter {l ts f} : l ≠ .primary → (l = .object → Without .openBrace ts) →
      Stuck stop (.expr l.tighter) ts f → Stuck stop (.expr l) ts f
  -- primaries
  | operand {ts} : Without .identifier ts → Without .string ts → Without .number ts → Without .openParen ts →
      Stuck stop (.expr .primary) ts (unexpected stop Expected.expression ts)
  | numeral {t ts} : t.kind = .number → Number.read? t.text = none →
      Stuck stop (.expr .primary) (t :: ts) (.unexpectedToken t Expected.numeral)
  | grouped {o ts f} : o.kind = .openParen → Stuck stop (.expr .assignment) ts f →
      Stuck stop (.expr .primary) (o :: ts) f
  | groupEnd {o e us rest} : o.kind = .openParen → Level.assignment.Whole e us rest →
      Without .closeParen rest → Stuck stop (.expr .primary) (o :: (us ++ rest)) (unexpected stop Expected.groupEnd rest)
  -- suffixes
  | propertyName {e us d rest} : Derives (.expr .postfixed e) us → d.kind = .dot → Without .identifier rest →
      Stuck stop (.expr .postfixed) (us ++ d :: rest) (unexpected stop Expected.propertyName rest)
  | key {e us o ts f} : Derives (.expr .postfixed e) us → o.kind = .openBracket →
      Stuck stop (.expr .assignment) ts f → Stuck stop (.expr .postfixed) (us ++ o :: ts) f
  | memberEnd {e us o key vs rest} : Derives (.expr .postfixed e) us → o.kind = .openBracket →
      Level.assignment.Whole key vs rest → Without .closeBracket rest →
      Stuck stop (.expr .postfixed) (us ++ o :: (vs ++ rest)) (unexpected stop Expected.memberEnd rest)
  | called {e us o ts f} : Derives (.expr .postfixed e) us → o.kind = .openParen →
      Stuck stop .arguments ts f → Stuck stop (.expr .postfixed) (us ++ o :: ts) f
  | firstArgument {ts f} : Without .closeParen ts → Stuck stop (.expr .assignment) ts f →
      Stuck stop .arguments ts f
  | nextArgument {es us c ts f} : es ≠ [] → Derives (.arguments es) us → c.kind = .comma →
      Stuck stop (.expr .assignment) ts f → Stuck stop .arguments (us ++ c :: ts) f
  | argumentsEnd {es us rest} : es ≠ [] → Derives (.arguments es) us → Level.assignment.Stops us rest →
      Without .comma rest → Without .closeParen rest →
      Stuck stop .arguments (us ++ rest) (unexpected stop Expected.argumentsEnd rest)
  -- operators
  | right {l left us op ts f} : Derives (.expr l left) us → op.isOperator l.operators →
      Stuck stop (.expr l.tighter) ts f → Stuck stop (.expr l) (us ++ op :: ts) f
  -- objects and assignment
  | object {o ts f} : o.kind = .openBrace → Stuck stop .entries ts f → Stuck stop (.expr .object) (o :: ts) f
  | objectEnd : Stuck stop .entries [] (.unexpectedEnd Expected.objectEnd stop)
  | firstEntry {ts f} : ts ≠ [] → Without .closeBrace ts → Stuck stop .entry ts f → Stuck stop .entries ts f
  | nextEntry {e us c ts f} : Derives (.entry e) us → c.kind = .comma → Stuck stop .entries ts f →
      Stuck stop .entries (us ++ c :: ts) f
  | entryKey {ts} : Without .identifier ts → Stuck stop .entry ts (unexpected stop Expected.key ts)
  | keyColon {k ts} : k.kind = .identifier → Without .comma ts → Without .closeBrace ts → Without .colon ts →
      Stuck stop .entry (k :: ts) (unexpected stop Expected.keyColon ts)
  | entryValue {k c ts f} : k.kind = .identifier → c.kind = .colon → Stuck stop (.expr .assignment) ts f →
      Stuck stop .entry (k :: c :: ts) f
  | entryEnd {k c e us rest} : k.kind = .identifier → c.kind = .colon → Level.assignment.Whole e us rest →
      Without .closeBrace rest → Without .comma rest →
      Stuck stop .entry (k :: c :: (us ++ rest)) (unexpected stop Expected.entryEnd rest)
  | assigned {target us q ts f} : Derives (.expr .object target) us → q.kind = .equals →
      Stuck stop (.expr .assignment) ts f → Stuck stop (.expr .assignment) (us ++ q :: ts) f
  -- declarations of variables
  | variableName {k ts} : k.kind = .letWord ∨ k.kind = .constWord → Without .identifier ts →
      Stuck stop .statement (k :: ts) (unexpected stop Expected.variableName ts)
  | missingInitializer {k n last ts} : k.kind = .constWord → n.kind = .identifier → last.kind = .semicolon →
      Stuck stop .statement (k :: n :: last :: ts) (.missingInitializer (k.span.merge last.span))
  | initializer {k n ts} : k.kind = .letWord ∨ k.kind = .constWord → n.kind = .identifier →
      Without .semicolon ts → Without .equals ts →
      Stuck stop .statement (k :: n :: ts) (unexpected stop Expected.initializer ts)
  | initial {k n q ts f} : k.kind = .letWord ∨ k.kind = .constWord → n.kind = .identifier →
      q.kind = .equals → Stuck stop (.expr .assignment) ts f → Stuck stop .statement (k :: n :: q :: ts) f
  | declarationEnd {k n q e us rest} : k.kind = .letWord ∨ k.kind = .constWord → n.kind = .identifier →
      q.kind = .equals → Level.assignment.Whole e us rest → Without .semicolon rest →
      Stuck stop .statement (k :: n :: q :: (us ++ rest)) (unexpected stop Expected.declarationEnd rest)
  -- declarations of functions
  | functionName {k ts} : k.kind = .fnWord → Without .identifier ts →
      Stuck stop .statement (k :: ts) (unexpected stop Expected.functionName ts)
  | parametersStart {k n ts} : k.kind = .fnWord → n.kind = .identifier → Without .openParen ts →
      Stuck stop .statement (k :: n :: ts) (unexpected stop Expected.argumentsStart ts)
  | parameters {k n o ts f} : k.kind = .fnWord → n.kind = .identifier → o.kind = .openParen →
      Stuck stop .arguments ts f → Stuck stop .statement (k :: n :: o :: ts) f
  | invalidParameter {k n o es us c e ts} : k.kind = .fnWord → n.kind = .identifier → o.kind = .openParen →
      Derives (.arguments es) us → c.kind = .closeParen → es.find? (·.name?.isNone) = some e →
      Stuck stop .statement (k :: n :: o :: (us ++ c :: ts)) (.invalidParameter e.span)
  | bodyStart {k n o es us c ts} {parameters : List String} : k.kind = .fnWord → n.kind = .identifier →
      o.kind = .openParen → Derives (.arguments es) us → c.kind = .closeParen →
      es.map Expr.name? = parameters.map some → Without .openBrace ts →
      Stuck stop .statement (k :: n :: o :: (us ++ c :: ts)) (unexpected stop Expected.bodyStart ts)
  | body {k n o es us c start ts f} {parameters : List String} : k.kind = .fnWord → n.kind = .identifier →
      o.kind = .openParen → Derives (.arguments es) us → c.kind = .closeParen →
      es.map Expr.name? = parameters.map some → start.kind = .openBrace → Stuck stop (.statements true) ts f →
      Stuck stop .statement (k :: n :: o :: (us ++ c :: start :: ts)) f
  -- statements
  | expression {ts f} : Without .letWord ts → Without .constWord ts → Without .fnWord ts →
      Stuck stop (.expr .assignment) ts f → Stuck stop .statement ts f
  | bodyEnd : Stuck stop (.statements true) [] (.unexpectedEnd Expected.bodyEnd stop)
  | firstStatement {inBody ts f} : ts ≠ [] → (inBody = true → Without .closeBrace ts) →
      Stuck stop .statement ts f → Stuck stop (.statements inBody) ts f
  | nextStatement {inBody s us ts f} : StatementAt s us ts → Stuck stop (.statements inBody) ts f →
      Stuck stop (.statements inBody) (us ++ ts) f

/-! ## Readers that fail -/

section
variable {α β : Type} {n m : Nat} {f : SyntaxFault}

/-- The token lists that a reader rejects, and with which fault. -/
def Blames {P : List Token → Prop} (D : List Token → SyntaxFault → Prop)
    (reader : ∀ ts : List Token, P ts → Reading α ts.length) : Prop :=
  ∀ ts h f, reader ts h = .error f ↔ D ts f

theorem bind_eq_error {x : Except SyntaxFault β} {g : β → Except SyntaxFault α} :
    (x >>= g) = .error f ↔ x = .error f ∨ ∃ y, x = .ok y ∧ g y = .error f := by
  cases x with
  | error e =>
    constructor
    · rintro ⟨⟩
      exact .inl rfl
    · rintro (⟨⟨⟩⟩ | ⟨_, ⟨⟩, _⟩)
      rfl
  | ok y =>
    constructor
    · intro h
      exact .inr ⟨y, rfl, h⟩
    · rintro (⟨⟨⟩⟩ | ⟨_, ⟨⟩, h⟩)
      exact h

theorem bind_phrase_eq_error {x : Reading β m} {g : Phrase β m → Except SyntaxFault α} :
    (x >>= g) = .error f ↔ x = .error f ∨ ∃ w mid, ∃ h : mid.length < m, Reads x w mid ∧
      g ⟨w, mid, h⟩ = .error f := by
  rw [bind_eq_error]
  refine or_congr_right ⟨fun ⟨p, hp, h⟩ => ⟨p.value, p.rest, p.rest_lt, .of_eq hp, h⟩, ?_⟩
  rintro ⟨w, mid, _, ⟨_, hx⟩, h⟩
  exact ⟨_, hx, h⟩

theorem bind_phrases_eq_error {x : Except SyntaxFault (Phrases β m)}
    {g : Phrases β m → Except SyntaxFault α} :
    (x >>= g) = .error f ↔ x = .error f ∨ ∃ ws mid, ∃ h : mid.length ≤ m, ReadsMany x ws mid ∧
      g ⟨ws, mid, h⟩ = .error f := by
  rw [bind_eq_error]
  refine or_congr_right ⟨fun ⟨p, hp, h⟩ => ⟨p.values, p.rest, p.rest_le, ⟨_, hp⟩, h⟩, ?_⟩
  rintro ⟨ws, mid, _, ⟨_, hx⟩, h⟩
  exact ⟨_, hx, h⟩

@[simp] theorem pure_ne_error (x : α) : (pure x : Except SyntaxFault α) ≠ .error f := nofun

theorem throw_eq_error {e : SyntaxFault} : (throw e : Except SyntaxFault α) = .error f ↔ f = e :=
  ⟨fun h => (Except.error.inj h).symm, fun h => h ▸ rfl⟩

theorem token_eq_error {stop : Span} {kind : TokenKind} {expected : String} {ts : List Token} :
    token stop kind expected ts = .error f ↔ Without kind ts ∧ f = unexpected stop expected ts := by
  rw [token]
  split
  · next p hp =>
    obtain ⟨t, us, _⟩ := p
    obtain ⟨rfl, hk⟩ := accept_eq_some.1 hp
    exact iff_of_false (pure_ne_error _) fun h => h.1 t rfl hk
  · next hn => exact ⟨fun h => ⟨accept_eq_none.1 hn, (Except.error.inj h).symm⟩, fun h => by rw [h.2]⟩

/-- A repetition fails in the first phrase that does, and a phrase is begun only where one may
start. -/
theorem many_eq_error {starts : Token → Bool} {phrase : Reader α n} {D : α → List Token → List Token → Prop}
    {E : Token → List Token → SyntaxFault → Prop} (hp : Exact D phrase)
    (hb : ∀ t ts h f, starts t = true → (phrase (t :: ts) h = .error f ↔ E t ts f)) (ts : List Token)
    (h : ts.length < n) :
    many starts phrase ts h = .error f ↔
      ∃ vs us t rest, ts = us ++ t :: rest ∧ Repeated (Started starts D) (t :: rest) vs us ∧ starts t = true ∧
        E t rest f := by
  obtain ⟨k, hk⟩ : ∃ k, ts.length = k := ⟨_, rfl⟩
  induction k using Nat.strongRecOn generalizing ts with
  | ind k ih =>
  subst hk
  have hne (hn : ∀ t, ts.head? = some t → starts t = false) : ¬ ∃ vs us t rest, ts = us ++ t :: rest ∧
      Repeated (Started starts D) (t :: rest) vs us ∧ starts t = true ∧ E t rest f := by
    rintro ⟨vs, us, t, rest, rfl, hrep, hs, -⟩
    cases hrep with
    | nil =>
      rw [hn t rfl] at hs
      cases hs
    | cons hv =>
      obtain ⟨-, u, hu, hsu⟩ := hv
      rw [hn u (by simp [List.head?_append, hu])] at hsu
      cases hsu
  cases ts with
  | nil => exact iff_of_false (by rw [many]; exact pure_ne_error _) (hne (by simp))
  | cons t ts =>
    cases hs : starts t with
    | false => exact iff_of_false (by rw [many, hs]; exact pure_ne_error _) (hne (by simpa using hs))
    | true =>
      rw [many, hs, if_pos rfl, bind_phrase_eq_error, hb t ts h f hs]
      constructor
      · rintro (he | ⟨v, mid, hlt, hv, he⟩)
        · exact ⟨[], [], t, ts, rfl, .nil, hs, he⟩
        · rw [bind_phrases_eq_error] at he
          have he := he.resolve_right (by simp)
          obtain ⟨us, hus, hd⟩ := (hp _ _ _ _).1 hv
          obtain ⟨vs, ws, u, rest, rfl, hrep, hrest⟩ := (ih _ hlt mid _ rfl).1 he
          have hhead : us.head? = some t := by
            cases us with
            | nil => exact absurd (congrArg List.length hus) (Nat.ne_of_gt hlt)
            | cons u us => simp only [List.cons_append, List.cons.injEq] at hus; rw [hus.1]; rfl
          exact ⟨v :: vs, us ++ ws, u, rest, by simpa using hus, .cons ⟨hd, t, hhead, hs⟩ hrep, hrest⟩
      · rintro ⟨vs, us, u, rest, hts, hrep, hrest⟩
        cases hrep with
        | nil =>
          cases hts
          exact .inl hrest.2
        | @cons v vs us ws hv hrep =>
          have hv := (hp (t :: ts) h v (ws ++ u :: rest)).2 ⟨us, by simpa using hts, hv.1⟩
          refine .inr ⟨v, ws ++ u :: rest, hv.lt, hv, ?_⟩
          rw [bind_phrases_eq_error]
          exact .inl ((ih _ hv.lt _ _ rfl).2 ⟨vs, ws, u, rest, rfl, hrep, hrest⟩)

end

/-! ## Expressions -/

theorem without_cons {kind : TokenKind} {t : Token} {ts : List Token} :
    Without kind (t :: ts) ↔ t.kind ≠ kind := by
  simp [Without]

theorem without_nil (kind : TokenKind) : Without kind [] := by simp [Without]

theorem Level.Whole.rest_lt {l : Level} {e : Expr} {us rest : List Token} (h : l.Whole e us rest) :
    rest.length < (us ++ rest).length := by
  have := List.length_pos_iff.2 h.1.ne_nil
  rw [List.length_append]
  omega

theorem Derives.arguments_head {es : List Expr} {us : List Token} (h : Derives (.arguments es) us)
    (hne : es ≠ []) : ∃ t, us.head? = some t ∧ Grammar.opensStatement t := by
  cases h with
  | noArguments => exact absurd rfl hne
  | argument he => exact he.opensStatement
  | nextArgument he =>
    obtain ⟨t, ht, hk⟩ := he.opensStatement
    exact ⟨t, by simp [ht], hk⟩

theorem Derives.arguments_ne_nil {es : List Expr} {us : List Token} (h : Derives (.arguments es) us)
    (hne : es ≠ []) : us ≠ [] := by
  rintro rfl
  obtain ⟨_, ⟨⟩, _⟩ := h.arguments_head hne

theorem Derives.without_closeParen {es : List Expr} {us : List Token} (h : Derives (.arguments es) us)
    (hne : es ≠ []) (rest : List Token) : Without .closeParen (us ++ rest) := by
  intro t ht
  obtain ⟨u, hu, hk⟩ := h.arguments_head hne
  simp only [List.head?_append, hu, Option.some_or, Option.some.injEq] at ht
  subst ht
  unfold Grammar.opensStatement at hk
  grind

section
variable {n : Nat} {stop : Span} {sub : Reader Expr n} (hs : Exact Level.assignment.Whole sub)
  (hb : Blames (Stuck stop (.expr .assignment)) sub)
include hs hb

theorem primary_blames : Blames (P := (·.length ≤ n)) (Stuck stop (.expr .primary)) (primary stop sub) := by
  intro ts h f
  constructor
  · intro hr
    cases ts with
    | nil =>
      cases hr
      exact .operand (without_nil _) (without_nil _) (without_nil _) (without_nil _)
    | cons t ts =>
      rw [primary] at hr
      split at hr
      · cases hr
      · cases hr
      · next hk =>
        split at hr
        · cases hr
        · next hx =>
          obtain rfl := throw_eq_error.1 hr
          exact .numeral hk hx
      · next hk =>
        simp only [bind_phrase_eq_error, token_eq_error, pure_ne_error, hs _ _ _ _] at hr
        rcases hr with hr | ⟨e, rest, _, ⟨us, rfl, hw⟩, ⟨hc, rfl⟩ | ⟨_, _, _, _, hr⟩⟩
        · exact .grouped hk ((hb _ _ _).1 hr)
        · exact .groupEnd hk hw hc
        · exact hr.elim
      · next hi ht hn ho =>
        obtain rfl := throw_eq_error.1 hr
        exact .operand (without_cons.2 hi) (without_cons.2 ht) (without_cons.2 hn) (without_cons.2 ho)
  · intro hst
    generalize hg : Goal.expr .primary = g at hst
    cases hst with
    | operand hi ht hn ho =>
      cases ts with
      | nil => rfl
      | cons t ts =>
        rw [without_cons] at hi ht hn ho
        rw [primary]
        split
        · next hk => exact absurd hk hi
        · next hk => exact absurd hk ht
        · next hk => exact absurd hk hn
        · next hk => exact absurd hk ho
        · rfl
    | numeral hk hx => simp [primary, hk, hx, unexpected, throw_eq_error]
    | grouped hk hst =>
      simp only [primary, hk, bind_phrase_eq_error]
      exact .inl ((hb _ _ _).2 hst)
    | @groupEnd o e us rest hk hw hc =>
      simp only [primary, hk, bind_phrase_eq_error, token_eq_error, hs _ _ _ _]
      exact .inr ⟨e, rest, hw.rest_lt, ⟨us, rfl, hw⟩, .inl ⟨hc, rfl⟩⟩
    | tighter hl =>
      cases hg
      exact absurd rfl hl
    | right _ ho =>
      cases hg
      simp [Level.operators, Token.isOperator] at ho
    | _ => cases hg

omit hs in
theorem nextArgument_eq_error {c : Token} {ts : List Token} {h : (c :: ts).length < n} {f : SyntaxFault} :
    nextArgument stop sub (c :: ts) h = .error f ↔ Stuck stop (.expr .assignment) ts f := by
  simp only [nextArgument, bind_phrase_eq_error, pure_ne_error, and_false, exists_false, or_false, hb _ _ _]

theorem argumentList_eq_error {ts : List Token} {h : ts.length < n} {f : SyntaxFault} :
    argumentList stop sub ts h = .error f ↔
      Stuck stop (.expr .assignment) ts f ∨
        ∃ es us c rest, ts = us ++ c :: rest ∧ es ≠ [] ∧ Derives (.arguments es) us ∧ c.kind = .comma ∧
          Stuck stop (.expr .assignment) rest f := by
  simp only [argumentList, bind_phrase_eq_error, bind_phrases_eq_error, pure_ne_error, and_false, exists_false,
    or_false, hb _ _ _, hs _ _ _ _,
    many_eq_error (nextArgument_exact hs) fun _ _ _ _ _ => nextArgument_eq_error hb]
  refine or_congr_right ?_
  constructor
  · rintro ⟨e, _, _, ⟨us, rfl, hw⟩, es, ws, c, rest, rfl, hrep, hc, hst⟩
    exact ⟨e :: es, us ++ ws, c, rest, by simp, by simp, derives_arguments hw.1 hrep, by simpa using hc, hst⟩
  · rintro ⟨es, us, c, rest, rfl, hne, hd, hc, hst⟩
    obtain ⟨e, es, rfl⟩ := List.exists_cons_of_ne_nil hne
    obtain ⟨ts, ws, rfl, he, hstop, hrep⟩ := repeated_of_arguments hd (Level.stops_of_closes (.inl hc) us rest)
    have hlt := Level.Whole.rest_lt ⟨he, hstop⟩
    exact ⟨e, ws ++ c :: rest, by simpa using hlt, ⟨ts, by simp, he, hstop⟩, es, ws, c, rest, rfl, hrep,
      by simpa using hc, hst⟩

theorem arguments_blames :
    Blames (P := (·.length ≤ n)) (fun ts f =>
      Without .openParen ts ∧ f = unexpected stop Expected.argumentsStart ts ∨
        ∃ o us, ts = o :: us ∧ o.kind = .openParen ∧ Stuck stop .arguments us f) (arguments stop sub) := by
  intro ts h f
  simp only [arguments, bind_phrase_eq_error, token_eq_error, reads_token]
  refine or_congr_right ?_
  constructor
  · rintro ⟨o, us, hlt, ⟨rfl, ho⟩, hr⟩
    refine ⟨o, us, rfl, ho, ?_⟩
    split at hr
    · cases hr
    · next hnone =>
      simp only [bind_phrase_eq_error, token_eq_error, pure_ne_error, and_false, exists_false, or_false,
        argumentList_eq_error hs hb, reads_argumentList hs] at hr
      rcases hr with (hst | ⟨es, vs, c, rest, rfl, hne, hd, hc, hst⟩) |
        ⟨es, rest, _, ⟨vs, rfl, hne, hd, hstop, hcomma⟩, hclose, rfl⟩
      · exact .firstArgument (accept_eq_none.1 hnone) hst
      · exact .nextArgument hne hd hc hst
      · exact .argumentsEnd hne hd hstop (by simpa [Without] using hcomma) hclose
  · rintro ⟨o, us, rfl, ho, hst⟩
    refine ⟨o, us, length_lt_cons o us, ⟨rfl, ho⟩, ?_⟩
    have hne (hn : Without .closeParen us) : accept .closeParen us = none := accept_eq_none.2 hn
    generalize hg : Goal.arguments = g at hst
    cases hst with
    | firstArgument hn hst =>
      simp only [hne hn, bind_phrase_eq_error, argumentList_eq_error hs hb]
      exact .inl (.inl hst)
    | @nextArgument es vs c rest _ hes hd hc hst =>
      simp only [hne (hd.without_closeParen hes _), bind_phrase_eq_error, argumentList_eq_error hs hb]
      exact .inl (.inr ⟨es, vs, c, rest, rfl, hes, hd, hc, hst⟩)
    | @argumentsEnd es vs rest hes hd hstop hcomma hclose =>
      simp only [hne (hd.without_closeParen hes _), bind_phrase_eq_error, token_eq_error, reads_argumentList hs]
      have hlt : rest.length < (vs ++ rest).length := by
        have := List.length_pos_iff.2 (hd.arguments_ne_nil hes)
        rw [List.length_append]
        omega
      exact .inr ⟨es, rest, hlt, ⟨vs, rfl, hes, hd, hstop, by simpa [Without] using hcomma⟩, .inl ⟨hclose, rfl⟩⟩
    | _ => cases hg

/-- The faults behind a token that starts a suffix. -/
inductive SuffixStuck (stop : Span) : List Token → SyntaxFault → Prop
  | propertyName {d rest} : d.kind = .dot → Without .identifier rest →
      SuffixStuck stop (d :: rest) (unexpected stop Expected.propertyName rest)
  | key {o ts f} : o.kind = .openBracket → Stuck stop (.expr .assignment) ts f → SuffixStuck stop (o :: ts) f
  | memberEnd {o key us rest} : o.kind = .openBracket → Level.assignment.Whole key us rest →
      Without .closeBracket rest → SuffixStuck stop (o :: (us ++ rest)) (unexpected stop Expected.memberEnd rest)
  | called {o ts f} : o.kind = .openParen → Stuck stop .arguments ts f → SuffixStuck stop (o :: ts) f

theorem suffix_eq_error {t : Token} (ht : startsSuffix t = true) {ts : List Token} {h : (t :: ts).length < n}
    {f : SyntaxFault} : suffix stop sub (t :: ts) h = .error f ↔ SuffixStuck stop (t :: ts) f := by
  simp only [suffix]
  constructor
  · intro hr
    split at hr
    · next hk =>
      simp only [bind_phrase_eq_error, token_eq_error, pure_ne_error, and_false, exists_false, or_false] at hr
      obtain ⟨hn, rfl⟩ := hr
      exact .propertyName hk hn
    · split at hr
      · next hk =>
        simp only [bind_phrase_eq_error, token_eq_error, pure_ne_error, and_false, exists_false, or_false,
          hb _ _ _, hs _ _ _ _] at hr
        rcases hr with hst | ⟨key, rest, _, ⟨us, rfl, hw⟩, hc, rfl⟩
        · exact .key hk hst
        · exact .memberEnd hk hw hc
      · simp only [bind_phrase_eq_error, pure_ne_error, and_false, exists_false, or_false,
          arguments_blames hs hb _ _ _] at hr
        rcases hr with ⟨ho, -⟩ | ⟨o, us, hts, ho, hst⟩
        · next hd hbr =>
          rw [without_cons] at ho
          simp [startsSuffix, hd, hbr, ho] at ht
        · cases hts
          exact .called ho hst
  · intro hst
    cases hst with
    | propertyName hk hn =>
      simp only [hk, if_true, bind_phrase_eq_error, token_eq_error]
      exact .inl ⟨hn, trivial⟩
    | key hk hst =>
      simp only [hk, reduceCtorEq, if_false, if_true, bind_phrase_eq_error]
      exact .inl ((hb _ _ _).2 hst)
    | @memberEnd _ key us rest hk hw hc =>
      simp only [hk, reduceCtorEq, if_false, if_true, bind_phrase_eq_error, token_eq_error, hs _ _ _ _]
      exact .inr ⟨key, rest, hw.rest_lt, ⟨us, rfl, hw⟩, .inl ⟨hc, rfl⟩⟩
    | called hk hst =>
      simp only [hk, reduceCtorEq, if_false, bind_phrase_eq_error, arguments_blames hs hb _ _ _]
      exact .inl (.inr ⟨t, ts, rfl, hk, hst⟩)

theorem postfixed_blames : Blames (P := (·.length ≤ n)) (Stuck stop (.expr .postfixed)) (postfixed stop sub) := by
  intro ts h f
  simp only [postfixed, bind_phrase_eq_error, bind_phrases_eq_error, pure_ne_error, and_false, exists_false,
    or_false, primary_blames hs hb _ _ _, primary_exact hs _ _ _ _, Level.whole_iff (l := .primary) (by decide),
    Level.halts_primary, and_true, many_eq_error (suffix_exact hs) fun _ _ _ _ ht => suffix_eq_error hs hb ht]
  constructor
  · rintro (hst | ⟨first, _, _, ⟨us, rfl, hd⟩, ss, ws, t, rest, rfl, hrep, ht, hst⟩)
    · exact .tighter (by decide) (by simp) hst
    · have hd := derives_foldl_apply (.tighter (by decide) hd) hrep
      rw [← List.append_assoc]
      cases hst with
      | propertyName hk hn => exact .propertyName hd hk hn
      | key hk hst => exact .key hd hk hst
      | memberEnd hk hw hc => exact .memberEnd hd hk hw hc
      | called hk hst => exact .called hd hk hst
  · intro hst
    have behind {e : Expr} {us rest : List Token} {t : Token} (hd : Derives (.expr .postfixed e) us)
        (hts : ts = us ++ t :: rest) (ht : startsSuffix t = true) (hst : SuffixStuck stop (t :: rest) f) :
        ∃ first mid, ∃ _ : mid.length < ts.length, (∃ vs, ts = vs ++ mid ∧ Derives (.expr .primary first) vs) ∧
          ∃ ss ws u rest', mid = ws ++ u :: rest' ∧ Repeated SuffixAt (u :: rest') ss ws ∧
            startsSuffix u = true ∧ SuffixStuck stop (u :: rest') f := by
      obtain ⟨first, vs, ss, ws, rfl, rfl, hd, hrep⟩ := suffixed_of_derives hd (t :: rest)
      rw [List.append_assoc] at hts
      have hw : Level.primary.Whole first vs (ws ++ t :: rest) := ⟨hd, .inr (Level.halts_primary _), by simp⟩
      exact ⟨first, ws ++ t :: rest, hts ▸ hw.rest_lt, ⟨vs, hts, hd⟩, ss, ws, t, rest, rfl, hrep, ht, hst⟩
    generalize hg : Goal.expr .postfixed = g at hst
    cases hst with
    | tighter _ _ hst =>
      cases hg
      exact .inl hst
    | propertyName hd hk hn => exact .inr (behind hd rfl (by simp [startsSuffix, hk]) (.propertyName hk hn))
    | key hd hk hst => exact .inr (behind hd rfl (by simp [startsSuffix, hk]) (.key hk hst))
    | memberEnd hd hk hw hc => exact .inr (behind hd rfl (by simp [startsSuffix, hk]) (.memberEnd hk hw hc))
    | called hd hk hst => exact .inr (behind hd rfl (by simp [startsSuffix, hk]) (.called hk hst))
    | right _ ho =>
      cases hg
      simp [Level.operators, Token.isOperator] at ho
    | _ => cases hg

omit hs hb in
theorem chain_blames {l : Level} {inner : ∀ ts : List Token, ts.length ≤ n → Reading Expr ts.length}
    (hl : l = .additive ∨ l = .multiplicative) (hi : Exact l.tighter.Whole inner)
    (hbi : Blames (Stuck stop (.expr l.tighter)) inner) :
    Blames (P := (·.length ≤ n)) (Stuck stop (.expr l)) (chain stop l.operators inner) := by
  have hrank : 2 ≤ l.tighter.rank ∧ l.rank < l.tighter.rank ∧ l ≠ .primary ∧ l ≠ .object := by
    rcases hl with rfl | rfl <;> decide
  have hop {t : Token} {ts : List Token} {h : (t :: ts).length < n} {f : SyntaxFault} :
      operand stop inner (t :: ts) h = .error f ↔ Stuck stop (.expr l.tighter) ts f := by
    simp only [operand, bind_phrase_eq_error, pure_ne_error, and_false, exists_false, or_false, hbi _ _ _]
  intro ts h f
  simp only [chain, bind_phrase_eq_error, bind_phrases_eq_error, pure_ne_error, and_false, exists_false, or_false,
    hbi _ _ _, hi _ _ _ _, many_eq_error (operand_exact hi) fun _ _ _ _ _ => hop]
  constructor
  · rintro (hst | ⟨first, _, _, ⟨us, rfl, hw⟩, vs, ws, op, rest, rfl, hrep, hop, hst⟩)
    · exact .tighter hrank.2.2.1 (fun h => absurd h hrank.2.2.2) hst
    · rw [← List.append_assoc]
      exact .right (derives_foldl_joined (.tighter hrank.2.2.1 hw.1) hrep) hop hst
  · intro hst
    generalize hg : Goal.expr l = g at hst
    cases hst with
    | tighter _ _ hst =>
      cases hg
      exact .inl hst
    | @right _ left us op rest _ hd hop hst =>
      cases hg
      have hstop : l.tighter.Halts (op :: rest) := Level.halts_cons.2 (Level.goesOn_operator hop hrank.2.1)
      obtain ⟨first, vs, xs, ws, rfl, -, hd, hh, hrep⟩ := operands_of_derives hl hd hstop
      have hw : l.tighter.Whole first vs (ws ++ op :: rest) := (Level.whole_iff hrank.1).2 ⟨hd, hh⟩
      have hlt := hw.rest_lt
      exact .inr ⟨first, ws ++ op :: rest, by simpa using hlt, ⟨vs, by simp, hw⟩, xs, ws, op, rest, rfl, hrep,
        hop, hst⟩
    | operand | numeral | grouped | groupEnd | propertyName | key | memberEnd | called | object | assigned =>
      cases hg
      simp at hl
    | _ => cases hg

theorem multiplicative_blames :
    Blames (P := (·.length ≤ n)) (Stuck stop (.expr .multiplicative)) (multiplicative stop sub) :=
  chain_blames (l := .multiplicative) (.inr rfl) (postfixed_exact hs) (postfixed_blames hs hb)

theorem additive_blames : Blames (P := (·.length ≤ n)) (Stuck stop (.expr .additive)) (additive stop sub) :=
  chain_blames (l := .additive) (.inl rfl) (multiplicative_exact hs) (multiplicative_blames hs hb)

omit hs hb in
theorem startsWith_eq_false {kind : TokenKind} {ts : List Token} :
    startsWith kind ts = false ↔ Without kind ts := by
  cases ts <;> simp [startsWith, Without]

theorem entryValue_eq_error {key : Token} {ts : List Token} {h : ts.length < n} {f : SyntaxFault} :
    entryValue stop sub key ts h = .error f ↔
      Stuck stop (.expr .assignment) ts f ∨
        ∃ e us rest, ts = us ++ rest ∧ Level.assignment.Whole e us rest ∧ Without .closeBrace rest ∧
          Without .comma rest ∧ f = unexpected stop Expected.entryEnd rest := by
  simp only [entryValue, bind_phrase_eq_error, hb _ _ _, hs _ _ _ _]
  refine or_congr_right ?_
  constructor
  · rintro ⟨e, rest, _, ⟨us, rfl, hw⟩, hr⟩
    split at hr
    · cases hr
    · next hn =>
      simp only [bind_phrase_eq_error, token_eq_error, pure_ne_error, and_false, exists_false, or_false] at hr
      exact ⟨e, us, rest, rfl, hw, startsWith_eq_false.1 (by simpa using hn), hr.1, hr.2⟩
  · rintro ⟨e, us, rest, rfl, hw, hn, hc, rfl⟩
    refine ⟨e, rest, hw.rest_lt, ⟨us, rfl, hw⟩, ?_⟩
    rw [startsWith_eq_false.2 hn]
    simp only [Bool.false_eq_true, if_false, bind_phrase_eq_error, token_eq_error]
    exact .inl ⟨hc, trivial⟩

theorem entry_blames : Blames (Stuck stop .entry) (entry stop sub) := by
  intro ts h f
  simp only [entry, bind_phrase_eq_error, token_eq_error, reads_token]
  constructor
  · rintro (⟨hn, rfl⟩ | ⟨k, us, _, ⟨rfl, hk⟩, hr⟩)
    · exact .entryKey hn
    · split at hr
      · cases hr
      · next hcomma =>
        have hcomma : Without .comma us := accept_eq_none.1 hcomma
        split at hr
        · cases hr
        · next hbrace =>
          have hbrace : Without .closeBrace us := startsWith_eq_false.1 (by simpa using hbrace)
          simp only [bind_phrase_eq_error, token_eq_error, reads_token, pure_ne_error, and_false, exists_false,
            or_false, entryValue_eq_error hs hb] at hr
          rcases hr with ⟨hn, rfl⟩ | ⟨c, us, _, ⟨rfl, hc⟩, hst | ⟨e, vs, rest, rfl, hw, hb, hc', rfl⟩⟩
          · exact .keyColon hk hcomma hbrace hn
          · exact .entryValue hk hc hst
          · exact .entryEnd hk hc hw hb hc'
  · intro hst
    have behind {c : Token} {us : List Token} (hc : c.kind = .colon) :
        accept .comma (c :: us) = none ∧ startsWith .closeBrace (c :: us) = false := by
      simp [accept, startsWith, hc]
    generalize hg : Goal.entry = g at hst
    cases hst with
    | entryKey hn => exact .inl ⟨hn, rfl⟩
    | @keyColon k us hk hcomma hbrace hcolon =>
      refine .inr ⟨k, us, length_lt_cons k us, ⟨rfl, hk⟩, ?_⟩
      simp only [accept_eq_none.2 hcomma, startsWith_eq_false.2 hbrace, Bool.false_eq_true, if_false,
        bind_phrase_eq_error, token_eq_error]
      exact .inl ⟨hcolon, trivial⟩
    | @entryValue k c us _ hk hc hst =>
      refine .inr ⟨k, c :: us, length_lt_cons k _, ⟨rfl, hk⟩, ?_⟩
      simp only [behind hc, Bool.false_eq_true, if_false, bind_phrase_eq_error, reads_token,
        entryValue_eq_error hs hb]
      exact .inr ⟨c, us, length_lt_cons c us, ⟨rfl, hc⟩, .inl (.inl hst)⟩
    | @entryEnd k c e us rest hk hc hw hbrace hcomma =>
      refine .inr ⟨k, c :: (us ++ rest), length_lt_cons k _, ⟨rfl, hk⟩, ?_⟩
      simp only [behind hc, Bool.false_eq_true, if_false, bind_phrase_eq_error, reads_token,
        entryValue_eq_error hs hb]
      exact .inr ⟨c, us ++ rest, length_lt_cons c _, ⟨rfl, hc⟩,
        .inl (.inr ⟨e, us, rest, rfl, hw, hbrace, hcomma, rfl⟩)⟩
    | _ => cases hg

omit hs hb in
theorem Stuck.behind_entries {rest us : List Token} {es : List Entry} {f : SyntaxFault}
    (hn : Without .closeBrace rest) (h : Repeated (Started startsEntry EntryAt) rest es us)
    (hst : Stuck stop .entries rest f) : Stuck stop .entries (us ++ rest) f := by
  induction h with
  | nil => exact hst
  | cons he hrep ih =>
    rcases he.1 with ⟨ts, c, rfl, hd, hc⟩ | ⟨-, t, ht, hk⟩
    · simpa using Stuck.nextEntry hd hc ih
    · -- an entry without a comma stands before the brace
      obtain ⟨-, rfl⟩ := hrep.head_starts ht (by simp [hk])
      exact absurd hk (hn t ht)

omit hs hb in
theorem Stuck.entries_cases {ts : List Token} {f : SyntaxFault} (h : Stuck stop .entries ts f) :
    (∃ es us t rest, ts = us ++ t :: rest ∧ Repeated (Started startsEntry EntryAt) (t :: rest) es us ∧
        startsEntry t = true ∧ Stuck stop .entry (t :: rest) f) ∨
      ∃ es, Repeated (Started startsEntry EntryAt) [] es ts ∧ f = .unexpectedEnd Expected.objectEnd stop := by
  generalize hg : Goal.entries = g at h
  induction h with
  | objectEnd => exact .inr ⟨[], .nil, rfl⟩
  | @firstEntry ts _ hne hn hst =>
    obtain ⟨t, rest, rfl⟩ := List.exists_cons_of_ne_nil hne
    exact .inl ⟨[], [], t, rest, rfl, .nil, by simpa using without_cons.1 hn, hst⟩
  | @nextEntry e us c rest _ he hc _ ih =>
    have hstart (ws : List Token) : Started startsEntry EntryAt e (us ++ [c]) ws :=
      ⟨.inl ⟨us, c, rfl, he, hc⟩, startsEntry_head he [c]⟩
    rcases ih hg with ⟨es, vs, t, rest, rfl, hrep, ht, hst⟩ | ⟨es, hrep, rfl⟩
    · exact .inl ⟨e :: es, us ++ [c] ++ vs, t, rest, by simp, .cons (hstart _) hrep, ht, hst⟩
    · exact .inr ⟨e :: es, by simpa using Repeated.cons (hstart _) hrep, rfl⟩
  | _ => cases hg

omit hs hb in
theorem stuck_object_iff {ts : List Token} {f : SyntaxFault} (hn : Without .openBrace ts) :
    Stuck stop (.expr .object) ts f ↔ Stuck stop (.expr .additive) ts f := by
  constructor
  · intro h
    generalize hg : Goal.expr .object = g at h
    cases h with
    | tighter _ _ hst =>
      cases hg
      exact hst
    | object hk => exact absurd hk (without_cons.1 hn)
    | right _ ho =>
      cases hg
      simp [Level.operators, Token.isOperator] at ho
    | _ => cases hg
  · intro h
    exact .tighter (by decide) (fun _ => hn) h

omit hs hb in
theorem stuck_object_cons_iff {t : Token} {ts : List Token} {f : SyntaxFault} (hk : t.kind = .openBrace) :
    Stuck stop (.expr .object) (t :: ts) f ↔ Stuck stop .entries ts f := by
  constructor
  · intro h
    generalize hg : Goal.expr .object = g, hts : t :: ts = us at h
    cases h with
    | tighter _ hn =>
      cases hg
      subst hts
      exact absurd hk (without_cons.1 (hn rfl))
    | object _ hst =>
      cases hts
      exact hst
    | right _ ho =>
      cases hg
      simp [Level.operators, Token.isOperator] at ho
    | _ => cases hg
  · exact .object hk

theorem object_blames : Blames (P := (·.length ≤ n)) (Stuck stop (.expr .object)) (object stop sub) := by
  intro ts h f
  cases ts with
  | nil => rw [object, additive_blames hs hb _ _ _, stuck_object_iff (without_nil _)]
  | cons t ts =>
    rw [object]
    split
    · next hk =>
      rw [stuck_object_cons_iff hk]
      simp only [bind_phrases_eq_error, bind_phrase_eq_error, token_eq_error, pure_ne_error, and_false, exists_false,
        or_false, readsMany_iff (entry_exact hs),
        many_eq_error (entry_exact hs) fun _ _ _ _ _ => entry_blames hs hb _ _ _]
      constructor
      · rintro (⟨es, us, u, rest, rfl, hrep, hu, hst⟩ | ⟨es, rest, _, ⟨us, rfl, hrep, hstop⟩, hn, rfl⟩)
        · have hn : Without .closeBrace (u :: rest) := without_cons.2 (by simpa using hu)
          exact Stuck.behind_entries hn hrep (.firstEntry (List.cons_ne_nil _ _) hn hst)
        · cases rest with
          | nil => exact Stuck.objectEnd.behind_entries (without_nil _) hrep
          | cons u rest => exact absurd (by simpa using hstop u rfl) (without_cons.1 hn)
      · intro hst
        rcases hst.entries_cases with ⟨es, us, u, rest, rfl, hrep, hu, hst⟩ | ⟨es, hrep, rfl⟩
        · exact .inl ⟨es, us, u, rest, rfl, hrep, hu, hst⟩
        · exact .inr ⟨es, [], by simp, ⟨ts, by simp, hrep, by simp⟩, without_nil _, rfl⟩
    · next hk => rw [additive_blames hs hb _ _ _, stuck_object_iff (without_cons.2 hk)]

theorem assignment_blames :
    Blames (P := (·.length ≤ n)) (Stuck stop (.expr .assignment)) (assignment stop sub) := by
  intro ts h f
  simp only [assignment, bind_phrase_eq_error, object_blames hs hb _ _ _, object_exact hs _ _ _ _]
  constructor
  · rintro (hst | ⟨target, rest, _, ⟨us, rfl, hw⟩, hr⟩)
    · exact .tighter (by decide) (by simp) hst
    · split at hr
      · cases hr
      · next p hp =>
        obtain ⟨q, ws, _⟩ := p
        obtain ⟨rfl, hq⟩ := accept_eq_some.1 hp
        simp only [bind_phrase_eq_error, pure_ne_error, and_false, exists_false, or_false, hb _ _ _] at hr
        exact .assigned hw.1 hq hr
  · intro hst
    generalize hg : Goal.expr .assignment = g at hst
    cases hst with
    | tighter _ _ hst =>
      cases hg
      exact .inl hst
    | @assigned target us q rest _ hd hq hst =>
      have hw : Level.object.Whole target us (q :: rest) :=
        ⟨hd, .inr (Level.halts_cons.2 (by apply Level.goesOn_eq_false <;> simp [hq])), by simp⟩
      refine .inr ⟨target, q :: rest, hw.rest_lt, ⟨us, rfl, hw⟩, ?_⟩
      simp only [accept, hq, if_true, bind_phrase_eq_error]
      exact .inl ((hb _ _ _).2 hst)
    | right _ ho =>
      cases hg
      simp [Level.operators, Token.isOperator] at ho
    | _ => cases hg

end

/-- Where and why an expression cannot be read, exactly. -/
theorem expression_eq_error {stop : Span} (ts : List Token) (f : SyntaxFault) :
    expression stop ts = .error f ↔ Stuck stop (.expr .assignment) ts f := by
  obtain ⟨k, hk⟩ : ∃ k, ts.length = k := ⟨_, rfl⟩
  induction k using Nat.strongRecOn generalizing ts f with
  | ind k ih =>
  subst hk
  have hb : Blames (Stuck stop (.expr .assignment)) fun us (_ : us.length < ts.length) => expression stop us :=
    fun us h f => ih _ h us f rfl
  rw [expression]
  exact assignment_blames (expressions_exact _) hb ts (Nat.le_refl _) f

end RavenLang.Grammar
