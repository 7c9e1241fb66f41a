import RavenLang.Proofs.Grammar.Ambiguity
import RavenLang.Proofs.Grammar.Rejected

/-!
# The offending token

A fault other than an early end is raised at one token. No token behind it was looked at, so the
fault stays whatever follows, and what stands before it may still become a program.
-/

namespace RavenLang.Grammar

/-! ## Tokens that the grammar does not tell apart -/

/-- The grammar sees kinds, and the texts of operators and numbers only. -/
def Interchangeable (t u : Token) : Prop :=
  u.kind = t.kind ∧ (t.kind = .operator ∨ t.kind = .number → u.text = t.text)

/-- Both lists end, or go on with tokens that the grammar does not tell apart. -/
abbrev SameHead (ts us : List Token) : Prop := Option.Rel Interchangeable ts.head? us.head?

theorem Interchangeable.refl (t : Token) : Interchangeable t t := ⟨rfl, fun _ => rfl⟩

theorem Interchangeable.isOperator {t u : Token} (h : Interchangeable t u) (operators : List String) :
    u.isOperator operators = t.isOperator operators := by
  rw [Token.isOperator, Token.isOperator, h.1]
  by_cases hk : t.kind = .operator
  · rw [h.2 (.inl hk)]
  · simp [hk]

theorem Interchangeable.goesOn {t u : Token} (h : Interchangeable t u) (l : Level) : l.goesOn u = l.goesOn t := by
  simp only [Level.goesOn, startsSuffix, h.isOperator, h.1]

namespace SameHead

variable {ts us : List Token}

theorem append_cons {t u : Token} (h : Interchangeable t u) (before ts us : List Token) :
    SameHead (before ++ t :: ts) (before ++ u :: us) := by
  cases before with
  | nil => exact .some h
  | cons b before => exact .some (.refl b)

theorem exists_of_eq_some (h : SameHead ts us) {u : Token} (hu : us.head? = some u) :
    ∃ t, ts.head? = some t ∧ Interchangeable t u := by
  unfold SameHead at h
  rw [hu] at h
  generalize ts.head? = o at h
  cases h with
  | some h => exact ⟨_, rfl, h⟩

theorem without (h : SameHead ts us) {kind : TokenKind} (hn : Without kind ts) : Without kind us := by
  intro u hu
  obtain ⟨t, ht, hk⟩ := h.exists_of_eq_some hu
  rw [hk.1]
  exact hn t ht

theorem ne_nil (h : SameHead ts us) (hn : ts ≠ []) : us ≠ [] := by
  intro hu
  subst hu
  cases ts with
  | nil => exact hn rfl
  | cons t ts => cases h

theorem stops (h : SameHead ts us) {l : Level} {xs : List Token} (hs : l.Stops xs ts) : l.Stops xs us := by
  obtain ⟨hb, hq⟩ := hs
  refine ⟨hb.imp_right fun hh u hu => ?_, fun hl u hu => ?_⟩
  · obtain ⟨t, ht, hk⟩ := h.exists_of_eq_some hu
    rw [hk.goesOn]
    exact hh t ht
  · obtain ⟨t, ht, hk⟩ := h.exists_of_eq_some hu
    rw [hk.1]
    exact hq hl t ht

theorem whole (h : SameHead ts us) {l : Level} {e : Expr} {xs : List Token} (hw : l.Whole e xs ts) :
    l.Whole e xs us :=
  ⟨hw.1, h.stops hw.2⟩

theorem statementAt (h : SameHead ts us) {s : Stmt} {xs : List Token} (hs : StatementAt s xs ts) :
    StatementAt s xs us := by
  obtain ⟨closed, hs, hend⟩ := hs
  exact ⟨closed, hs, fun hc => ⟨h.stops (hend hc).1, h.without (hend hc).2⟩⟩

end SameHead

/-! ## Where a fault is raised -/

/-- What a fault says about the token at which it is raised, and about what stands before it. -/
inductive Offends : SyntaxFault → List Token → Token → Prop
  | unexpected {before t expected} : Offends (.unexpectedToken t expected) before t
  | uninitialized {k n t} (before : List Token) : k.kind = .constWord → n.kind = .identifier → t.kind = .semicolon →
      Offends (.missingInitializer (k.span.merge t.span)) (before ++ [k, n]) t
  | parameter {k n o es us e t} (before : List Token) : k.kind = .fnWord → n.kind = .identifier → o.kind = .openParen →
      Derives (.arguments es) us → t.kind = .closeParen → es.find? (·.name?.isNone) = some e →
      Offends (.invalidParameter e.span) (before ++ k :: n :: o :: us) t

theorem Offends.behind {f : SyntaxFault} {before : List Token} {t : Token} (h : Offends f before t)
    (us : List Token) : Offends f (us ++ before) t := by
  cases h with
  | unexpected => exact .unexpected
  | uninitialized _ hk hn ht =>
    rw [← List.append_assoc]
    exact .uninitialized _ hk hn ht
  | parameter _ hk hn ho hd ht he =>
    rw [← List.append_assoc]
    exact .parameter _ hk hn ho hd ht he

/-- The fault is raised at a token. Whatever follows the token it stays, and if another one of the same
kind stands there reading gets stuck all the same. -/
def Raised (goal : Goal) (ts : List Token) (f : SyntaxFault) : Prop :=
  ∃ before t after, ts = before ++ t :: after ∧ Offends f before t ∧ ∀ stop u us, Interchangeable t u →
    ∃ g, Stuck stop goal (before ++ u :: us) g ∧ (u = t → g = f)

namespace Raised

variable {goal goal' : Goal} {ts : List Token} {f : SyntaxFault}

/-- What stands before is read without a look at more than the next token. -/
theorem behind (h : Raised goal ts f) (us : List Token)
    (hst : ∀ {stop vs g}, SameHead ts vs → Stuck stop goal vs g → Stuck stop goal' (us ++ vs) g) :
    Raised goal' (us ++ ts) f := by
  obtain ⟨before, t, after, rfl, ho, hraised⟩ := h
  refine ⟨us ++ before, t, after, by simp, ho.behind us, fun stop u vs hu => ?_⟩
  obtain ⟨g, hg, he⟩ := hraised stop u vs hu
  rw [List.append_assoc]
  exact ⟨g, hst (.append_cons hu before after vs) hg, he⟩

theorem here {stop : Span} {expected : String} (hi : (unexpected stop expected ts).isIncomplete = false)
    (us : List Token)
    (hst : ∀ {stop vs}, SameHead ts vs → Stuck stop goal (us ++ vs) (unexpected stop expected vs)) :
    Raised goal (us ++ ts) (unexpected stop expected ts) := by
  cases ts with
  | nil => cases hi
  | cons t after =>
    refine ⟨us, t, after, rfl, .unexpected, fun stop u vs hu => ?_⟩
    exact ⟨_, hst (.some hu), fun h => by rw [unexpected, unexpected, h]⟩

end Raised

theorem Stuck.raised {stop : Span} {goal : Goal} {ts : List Token} {f : SyntaxFault} (h : Stuck stop goal ts f)
    (hi : f.isIncomplete = false) : Raised goal ts f := by
  induction h with
  | tighter hl hb _ ih => exact (ih hi).behind [] fun hs hst => .tighter hl (fun ho => hs.without (hb ho)) hst
  | operand hid hstr hnum hpar =>
    exact .here hi [] fun hs => .operand (hs.without hid) (hs.without hstr) (hs.without hnum) (hs.without hpar)
  | @numeral t ts hk hx =>
    refine ⟨[], t, ts, rfl, .unexpected, fun stop u us hu => ?_⟩
    refine ⟨_, .numeral (hu.1.trans hk) ?_, fun h => by rw [h]⟩
    rw [hu.2 (.inr hk)]
    exact hx
  | grouped ho _ ih => exact (ih hi).behind [_] fun _ hst => .grouped ho hst
  | groupEnd ho hw hc => exact .here hi (_ :: _) fun hs => .groupEnd ho (hs.whole hw) (hs.without hc)
  | @propertyName e us d rest hd hk hn =>
    simpa using Raised.here hi (us ++ [d]) fun hs => by simpa using Stuck.propertyName hd hk (hs.without hn)
  | @key e us o ts f hd ho _ ih =>
    simpa using (ih hi).behind (us ++ [o]) fun _ hst => by simpa using Stuck.key hd ho hst
  | @memberEnd e us o key vs rest hd ho hw hc =>
    simpa using Raised.here hi (us ++ o :: vs) fun hs => by
      simpa using Stuck.memberEnd hd ho (hs.whole hw) (hs.without hc)
  | @called e us o ts f hd ho _ ih =>
    simpa using (ih hi).behind (us ++ [o]) fun _ hst => by simpa using Stuck.called hd ho hst
  | firstArgument hc _ ih => exact (ih hi).behind [] fun hs hst => .firstArgument (hs.without hc) hst
  | @nextArgument es us c ts f hes hd hc _ ih =>
    simpa using (ih hi).behind (us ++ [c]) fun _ hst => by simpa using Stuck.nextArgument hes hd hc hst
  | argumentsEnd hes hd hstop hcomma hclose =>
    exact .here hi _ fun hs => .argumentsEnd hes hd (hs.stops hstop) (hs.without hcomma) (hs.without hclose)
  | @right l left us op ts f hd ho _ ih =>
    simpa using (ih hi).behind (us ++ [op]) fun _ hst => by simpa using Stuck.right hd ho hst
  | object ho _ ih => exact (ih hi).behind [_] fun _ hst => .object ho hst
  | objectEnd | bodyEnd => cases hi
  | firstEntry hne hc _ ih =>
    exact (ih hi).behind [] fun hs hst => .firstEntry (hs.ne_nil hne) (hs.without hc) hst
  | @nextEntry e us c ts f he hc _ ih =>
    simpa using (ih hi).behind (us ++ [c]) fun _ hst => by simpa using Stuck.nextEntry he hc hst
  | entryKey hk => exact .here hi [] fun hs => .entryKey (hs.without hk)
  | keyColon hk hcomma hclose hcolon =>
    exact .here hi [_] fun hs => .keyColon hk (hs.without hcomma) (hs.without hclose) (hs.without hcolon)
  | entryValue hk hc _ ih => exact (ih hi).behind [_, _] fun _ hst => .entryValue hk hc hst
  | entryEnd hk hc hw hclose hcomma =>
    exact .here hi (_ :: _ :: _) fun hs => .entryEnd hk hc (hs.whole hw) (hs.without hclose) (hs.without hcomma)
  | @assigned target us q ts f hd hq _ ih =>
    simpa using (ih hi).behind (us ++ [q]) fun _ hst => by simpa using Stuck.assigned hd hq hst
  | variableName hk hn => exact .here hi [_] fun hs => .variableName hk (hs.without hn)
  | @missingInitializer k n last ts hk hn hl =>
    refine ⟨[k, n], last, ts, rfl, .uninitialized [] hk hn hl, fun stop u us hu => ?_⟩
    exact ⟨_, .missingInitializer hk hn (hu.1.trans hl), fun h => by rw [h]⟩
  | initializer hk hn hsemi hq => exact .here hi [_, _] fun hs => .initializer hk hn (hs.without hsemi) (hs.without hq)
  | initial hk hn hq _ ih => exact (ih hi).behind [_, _, _] fun _ hst => .initial hk hn hq hst
  | declarationEnd hk hn hq hw hl =>
    exact .here hi (_ :: _ :: _ :: _) fun hs => .declarationEnd hk hn hq (hs.whole hw) (hs.without hl)
  | functionName hk hn => exact .here hi [_] fun hs => .functionName hk (hs.without hn)
  | parametersStart hk hn ho => exact .here hi [_, _] fun hs => .parametersStart hk hn (hs.without ho)
  | parameters hk hn ho _ ih => exact (ih hi).behind [_, _, _] fun _ hst => .parameters hk hn ho hst
  | @invalidParameter k n o es us c e ts hk hn ho hd hc he =>
    refine ⟨k :: n :: o :: us, c, ts, rfl, .parameter [] hk hn ho hd hc he, fun stop u vs hu => ?_⟩
    exact ⟨_, .invalidParameter hk hn ho hd (hu.1.trans hc) he, fun _ => rfl⟩
  | @bodyStart k n o es us c ts ps hk hn ho hd hc hps hopen =>
    simpa using Raised.here hi (k :: n :: o :: (us ++ [c])) fun hs => by
      simpa using Stuck.bodyStart hk hn ho hd hc hps (hs.without hopen)
  | @body k n o es us c start ts f ps hk hn ho hd hc hps hstart _ ih =>
    simpa using (ih hi).behind (k :: n :: o :: (us ++ [c, start])) fun _ hst => by
      simpa using Stuck.body hk hn ho hd hc hps hstart hst
  | expression hlet hconst hfn _ ih =>
    exact (ih hi).behind [] fun hs hst => .expression (hs.without hlet) (hs.without hconst) (hs.without hfn) hst
  | firstStatement hne hc _ ih =>
    exact (ih hi).behind [] fun hs hst => .firstStatement (hs.ne_nil hne) (fun hb => hs.without (hc hb)) hst
  | nextStatement hs _ ih => exact (ih hi).behind _ fun hh hst => .nextStatement (hh.statementAt hs) hst

/-! ## The first offence -/

theorem Stuck.unique {stop : Span} {ts : List Token} {f g : SyntaxFault}
    (h : Stuck stop (.statements false) ts f) (h' : Stuck stop (.statements false) ts g) : f = g :=
  Except.error.inj ((program_eq_error.2 h).symm.trans (program_eq_error.2 h'))

theorem Stuck.final {stop : Span} {goal : Goal} {ts : List Token} {f : SyntaxFault} (h : Stuck stop goal ts f)
    (hi : f.isIncomplete = false) (stop' : Span) (us : List Token) : Stuck stop' goal (ts ++ us) f := by
  obtain ⟨before, t, after, rfl, -, hraised⟩ := h.raised hi
  obtain ⟨g, hg, he⟩ := hraised stop' t (after ++ us) (.refl t)
  rw [← he rfl]
  simpa using hg

/-- There is a first token at which the fault is raised: before it nothing is wrong but an early end. -/
theorem Stuck.first {stop : Span} {ts : List Token} {f : SyntaxFault} (h : Stuck stop (.statements false) ts f)
    (hi : f.isIncomplete = false) :
    ∃ before t after, ts = before ++ t :: after ∧ Offends f before t ∧
      (∀ stop us, Stuck stop (.statements false) (before ++ t :: us) f) ∧
      ∀ stop g, Stuck stop (.statements false) before g → g.isIncomplete = true := by
  induction hn : ts.length using Nat.strongRecOn generalizing stop ts f with
  | ind n ih =>
    subst hn
    obtain ⟨before, t, after, rfl, ho, hraised⟩ := h.raised hi
    have hfinal (stop : Span) (us : List Token) : Stuck stop (.statements false) (before ++ t :: us) f := by
      obtain ⟨g, hg, he⟩ := hraised stop t us (.refl t)
      exact he rfl ▸ hg
    by_cases hb : ∀ stop g, Stuck stop (.statements false) before g → g.isIncomplete = true
    · exact ⟨before, t, after, rfl, ho, hfinal, hb⟩
    · -- the same fault is raised within what stands before
      push Not at hb
      obtain ⟨stop', g, hg, hgi⟩ := hb
      have hgi := Bool.eq_false_of_not_eq_true hgi
      obtain rfl : g = f := (hg.final hgi stop' (t :: after)).unique (hfinal stop' after)
      obtain ⟨before', t', after', rfl, h'⟩ := ih _ (by simp) hg hgi rfl
      exact ⟨before', t', after' ++ t :: after, by simp, h'⟩

end RavenLang.Grammar

namespace RavenLang

open Grammar

/-- A syntax fault other than an early end is raised at the first token that cannot stand where it does:
the tokens before it are a program or end too early, and whatever follows it the fault is the same. The
token is the one that was found, the `;` of a constant without a value, or the `)` behind parameters of
which the first that is no name is at fault. -/
theorem Program.ofTokens_first_offence {ts : List Token} (hend : ∀ t ∈ ts, t.kind ≠ .endOfInput)
    {f : SyntaxFault} (h : ofTokens ts = .error f) (hi : f.isIncomplete = false) :
    ∃ before t after, ts = before ++ t :: after ∧ Offends f before t ∧
      (∀ g, ofTokens before = .error g → g.isIncomplete = true) ∧
      ∀ us : List Token, (∀ u ∈ us, u.kind ≠ .endOfInput) → ofTokens (before ++ t :: us) = .error f := by
  rw [ofTokens_eq, Token.beforeEnd_eq_self hend, program_eq_error] at h
  obtain ⟨before, t, after, rfl, ho, hfinal, hbefore⟩ := h.first hi
  rw [List.forall_mem_append, List.forall_mem_cons] at hend
  refine ⟨before, t, after, rfl, ho, fun g hg => ?_, fun us hus => ?_⟩
  · rw [ofTokens_eq, Token.beforeEnd_eq_self hend.1, program_eq_error] at hg
    exact hbefore _ g hg
  · have hall : ∀ u ∈ before ++ t :: us, u.kind ≠ .endOfInput :=
      List.forall_mem_append.2 ⟨hend.1, List.forall_mem_cons.2 ⟨hend.2.1, hus⟩⟩
    rw [ofTokens_eq, Token.beforeEnd_eq_self hall, program_eq_error]
    exact hfinal _ us

/-- The second parameter is a number, and that is noticed behind the list. -/
theorem Program.ofTokens_first_offence_parameter :
    let ts : List Token := [⟨.fnWord, "fn", ⟨0, 2⟩⟩, ⟨.identifier, "f", ⟨3, 4⟩⟩, ⟨.openParen, "(", ⟨4, 5⟩⟩,
      ⟨.identifier, "a", ⟨5, 6⟩⟩, ⟨.comma, ",", ⟨6, 7⟩⟩, ⟨.number, "1", ⟨8, 9⟩⟩, ⟨.closeParen, ")", ⟨9, 10⟩⟩,
      ⟨.semicolon, ";", ⟨10, 11⟩⟩]
    let f : SyntaxFault := .invalidParameter ⟨8, 9⟩
    (∀ t ∈ ts, t.kind ≠ .endOfInput) ∧ ofTokens ts = .error f ∧ f.isIncomplete = false ∧
      ∃ before t after, ts = before ++ t :: after ∧ Offends f before t ∧
        (∀ g, ofTokens before = .error g → g.isIncomplete = true) ∧
        ∀ us : List Token, (∀ u ∈ us, u.kind ≠ .endOfInput) → ofTokens (before ++ t :: us) = .error f := by
  intro ts f
  have hend : ∀ t ∈ ts, t.kind ≠ .endOfInput := by decide
  have hcheck : (match ofTokens ts with
      | .error g => decide (g = f)
      | .ok _ => false) = true := by
    rw [ofTokens_eq]
    decide +kernel
  have h : ofTokens ts = .error f := by
    split at hcheck
    · next g hg => rw [hg, of_decide_eq_true hcheck]
    · cases hcheck
  exact ⟨hend, h, rfl, ofTokens_first_offence hend h rfl⟩

end RavenLang
