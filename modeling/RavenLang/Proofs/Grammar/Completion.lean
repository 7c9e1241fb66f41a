import RavenLang.Proofs.Grammar.Offence
import RavenLang.Proofs.Grammar.Parameters
import RavenLang.Proofs.Token.Stopped

/-!
# Unfinished programs can be completed

What gets stuck at the end of the input goes on to a program, unless the input ends in a parameter
list that holds more than names. Text directly behind the input can do no more than further lines, but
for a slash at its end, which a comment can take away.
-/

namespace RavenLang.Grammar

open Piece

variable {stop : Span}

/-! ## Completions -/

/-- The whole of what is being read. -/
def Finished : Goal → List Token → Prop
  | .expr l, ts => ∃ e, Derives (.expr l e) ts
  | .arguments, ts => ∃ es, Derives (.arguments es) ts
  | .entry, ts => ∃ e, Derives (.entry e) ts
  | .entries, ts => ∃ es, Derives (.entries es) ts
  | .statement, ts => ∃ closed s, Spells Anywhere (.statement closed s) ts
  | .statements _, ts => ∃ ss, Spells Anywhere (.statements ss) ts

theorem Finished.neutral {goal : Goal} {ts : List Token} (h : Finished goal ts) : Neutral ts := by
  cases goal with
  | expr | arguments | entry | entries =>
    obtain ⟨_, h⟩ := h
    exact h.neutral
  | statement =>
    obtain ⟨_, _, h⟩ := h
    exact h.neutral
  | statements =>
    obtain ⟨_, h⟩ := h
    exact h.neutral

/-- No bracket is closed that was not opened before, if tokens can be put behind that close the rest. -/
theorem Neutral.nest_isSome {ts us : List Token} (h : Neutral (ts ++ us)) : (nest [] ts).isSome := by
  have hn := h [] []
  rw [List.append_nil, nest_append] at hn
  cases ho : nest [] ts with
  | none => rw [ho] at hn; cases hn
  | some => rfl

/-- Some text put behind the tokens finishes what is being read. -/
def Completable (goal : Goal) (ts : List Token) : Prop :=
  ∃ ps : List Piece, Fitting ps ∧ Finished goal (ts ++ ps.map Piece.token)

namespace Completable

variable {goal goal' : Goal} {ts us : List Token}

theorem now (h : Finished goal ts) : Completable goal ts := ⟨[], fitting_nil, by simpa using h⟩

theorem map (h : Completable goal ts) (hf : ∀ ws, Finished goal (ts ++ ws) → Finished goal' (us ++ ws)) :
    Completable goal' us := by
  obtain ⟨ps, hp, h⟩ := h
  exact ⟨ps, hp, hf _ h⟩

/-- A mark closes what was being read. -/
theorem close (h : Completable goal ts) {c : Char} {kind : TokenKind} (hc : TokenKind.ofMark? c = some kind)
    (hf : ∀ ws t, Finished goal (ts ++ ws) → t.kind = kind → Finished goal' (us ++ (ws ++ [t]))) :
    Completable goal' us := by
  obtain ⟨ps, hp, h⟩ := h
  refine ⟨ps ++ [mark c], fitting_append.2 ⟨hp, by simpa using fits_mark hc⟩, ?_⟩
  rw [List.map_append]
  exact hf _ _ h (kind_mark hc)

end Completable

theorem isIncomplete_unexpected {expected : String} {ts : List Token} :
    (unexpected stop expected ts).isIncomplete = true ↔ ts = [] := by
  cases ts <;> simp [unexpected, SyntaxFault.isIncomplete]

theorem Derives.arguments_snoc {es : List Expr} {e : Expr} {us vs : List Token} {c : Token}
    (h : Derives (.arguments es) us) (hne : es ≠ []) (hc : c.kind = .comma)
    (he : Derives (.expr .assignment e) vs) : Derives (.arguments (es ++ [e])) (us ++ c :: vs) := by
  generalize hf : Form.arguments es = f at h
  induction h generalizing es with
  | noArguments =>
    cases hf
    exact absurd rfl hne
  | argument hd =>
    cases hf
    exact .nextArgument hd hc (.argument he)
  | nextArgument hd hk _ _ ih =>
    cases hf
    have := ih (List.cons_ne_nil _ _) rfl
    rw [List.append_assoc]
    exact .nextArgument hd hk this
  | _ => cases hf

theorem Derives.x {l : Level} : Derives (.expr l (.name default "x")) [(word "x").token] :=
  (Derives.name (t := (word "x").token) rfl).loosen (by cases l <;> decide)

def emptyBody : List Piece := [mark '\x7b', mark '\x7d']

theorem fitting_emptyBody : Fitting emptyBody :=
  fitting_mark (c := '\x7b') rfl (fitting_mark (c := '\x7d') rfl fitting_nil)

theorem finished_emptyBody {k n o c : Token} {es : List Expr} {us : List Token} {names : List String}
    (hk : k.kind = .fnWord) (hn : n.kind = .identifier) (ho : o.kind = .openParen)
    (hd : Derives (.arguments es) us) (hc : c.kind = .closeParen) (hes : es.map Expr.name? = names.map some) :
    Finished .statement (k :: n :: o :: (us ++ c :: emptyBody.map Piece.token)) :=
  ⟨_, _, .function hk hn ho hd hc hes (kind_mark (c := '\x7b') rfl) .nil (kind_mark (c := '\x7d') rfl)⟩

def emptyFunction : List Piece := mark '(' :: mark ')' :: emptyBody

theorem fitting_emptyFunction : Fitting emptyFunction :=
  fitting_mark (c := '(') rfl (fitting_mark (c := ')') rfl fitting_emptyBody)

theorem finished_emptyFunction {k n : Token} (hk : k.kind = .fnWord) (hn : n.kind = .identifier) :
    Finished .statement (k :: n :: emptyFunction.map Piece.token) :=
  have hnames : ([] : List Expr).map Expr.name? = ([] : List String).map some := rfl
  finished_emptyBody hk hn (kind_mark (c := '(') rfl) .noArguments (kind_mark (c := ')') rfl) hnames

/-- Whether statements are not among what is being read. -/
def Goal.isPhrase : Goal → Bool
  | .statement | .statements _ => false
  | _ => true

theorem Stuck.completable_phrase {goal : Goal} {ts : List Token} {f : SyntaxFault} (h : Stuck stop goal ts f)
    (hi : f.isIncomplete = true) (hg : goal.isPhrase = true) : Completable goal ts := by
  have hx : Fitting [word "x"] := fitting_x fitting_nil
  have hm {c : Char} {kind : TokenKind} (h : TokenKind.ofMark? c = some kind) : Fitting [mark c] :=
    fitting_mark h fitting_nil
  induction h with
  | tighter hl _ _ ih => exact (ih hi rfl).map fun _ ⟨e, hd⟩ => ⟨e, .tighter hl hd⟩
  | operand =>
    obtain rfl := isIncomplete_unexpected.1 hi
    exact ⟨[word "x"], hx, _, .x⟩
  | numeral => cases hi
  | grouped ho _ ih =>
    exact (ih hi rfl).close (c := ')') rfl fun ws t ⟨e, hd⟩ ht =>
      ⟨_, by simpa using Derives.group ho hd ht⟩
  | groupEnd ho hw =>
    obtain rfl := isIncomplete_unexpected.1 hi
    exact ⟨[mark ')'], hm (c := ')') rfl, _, by simpa using Derives.group ho hw.1 (kind_mark (c := ')') rfl)⟩
  | propertyName hd hk =>
    obtain rfl := isIncomplete_unexpected.1 hi
    exact ⟨[word "x"], hx, _, by simpa using Derives.field hd hk (n := (word "x").token) rfl⟩
  | key hd ho _ ih =>
    exact (ih hi rfl).close (c := ']') rfl fun ws t ⟨e, hk⟩ ht =>
      ⟨_, by simpa using Derives.index hd ho hk ht⟩
  | memberEnd hd ho hw =>
    obtain rfl := isIncomplete_unexpected.1 hi
    exact ⟨[mark ']'], hm (c := ']') rfl, _, by simpa using Derives.index hd ho hw.1 (kind_mark (c := ']') rfl)⟩
  | called hd ho _ ih =>
    exact (ih hi rfl).close (c := ')') rfl fun ws t ⟨es, hes⟩ ht =>
      ⟨_, by simpa using Derives.call hd ho hes ht⟩
  | firstArgument _ _ ih => exact (ih hi rfl).map fun ws ⟨e, hd⟩ => ⟨_, .argument hd⟩
  | nextArgument hes hd hc _ ih =>
    exact (ih hi rfl).map fun ws ⟨e, he⟩ => ⟨_, by simpa using hd.arguments_snoc hes hc he⟩
  | argumentsEnd _ hd =>
    obtain rfl := isIncomplete_unexpected.1 hi
    exact .now ⟨_, by simpa using hd⟩
  | right hd ho _ ih =>
    exact (ih hi rfl).map fun ws ⟨e, he⟩ => ⟨_, by simpa using Derives.binary hd ho he⟩
  | object ho _ ih =>
    exact (ih hi rfl).close (c := '\x7d') rfl fun ws t ⟨es, hes⟩ ht =>
      ⟨_, by simpa using Derives.object ho hes ht⟩
  | objectEnd => exact .now ⟨_, .noEntries⟩
  | firstEntry _ _ _ ih => exact (ih hi rfl).map fun ws ⟨e, he⟩ => ⟨_, .lastEntry he⟩
  | nextEntry he hc _ ih =>
    exact (ih hi rfl).map fun ws ⟨es, hes⟩ => ⟨_, by simpa using Derives.nextEntry he hc hes⟩
  | entryKey =>
    obtain rfl := isIncomplete_unexpected.1 hi
    exact ⟨[word "x"], hx, _, .shorthand (k := (word "x").token) rfl⟩
  | keyColon hk =>
    obtain rfl := isIncomplete_unexpected.1 hi
    exact .now ⟨_, .shorthand hk⟩
  | entryValue hk hc _ ih => exact (ih hi rfl).map fun ws ⟨e, he⟩ => ⟨_, .pair hk hc he⟩
  | entryEnd hk hc hw =>
    obtain rfl := isIncomplete_unexpected.1 hi
    exact .now ⟨_, by simpa using Derives.pair hk hc hw.1⟩
  | assigned hd hq _ ih =>
    exact (ih hi rfl).map fun ws ⟨e, he⟩ => ⟨_, by simpa using Derives.assign hd hq he⟩
  | _ => cases hg

theorem Stuck.completable {goal : Goal} {ts : List Token} {f : SyntaxFault} (h : Stuck stop goal ts f)
    (hi : f.isIncomplete = true) (hp : PlainParameters ts) : Completable goal ts := by
  have hm {c : Char} {kind : TokenKind} (h : TokenKind.ofMark? c = some kind) : Fitting [mark c] :=
    fitting_mark h fitting_nil
  have whole := h
  induction h with
  | missingInitializer | invalidParameter => cases hi
  | variableName hk =>
    obtain rfl := isIncomplete_unexpected.1 hi
    exact ⟨[word "x", mark '=', word "x", mark ';'],
      fitting_x (fitting_mark (c := '=') rfl (fitting_x (hm (c := ';') rfl))), _, _,
      .defined hk (n := (word "x").token) rfl (kind_mark (c := '=') rfl) .x (kind_mark (c := ';') rfl)⟩
  | initializer hk hn =>
    obtain rfl := isIncomplete_unexpected.1 hi
    exact ⟨[mark '=', word "x", mark ';'], fitting_mark (c := '=') rfl (fitting_x (hm (c := ';') rfl)), _, _,
      .defined hk hn (kind_mark (c := '=') rfl) .x (kind_mark (c := ';') rfl)⟩
  | initial hk hn hq hst =>
    exact (hst.completable_phrase hi rfl).close (c := ';') rfl fun ws t ⟨e, he⟩ ht =>
      ⟨_, _, by simpa using Spells.defined hk hn hq he ht⟩
  | declarationEnd hk hn hq hw =>
    obtain rfl := isIncomplete_unexpected.1 hi
    exact ⟨[mark ';'], hm (c := ';') rfl, _, _,
      by simpa using Spells.defined hk hn hq hw.1 (kind_mark (c := ';') rfl)⟩
  | functionName hk =>
    obtain rfl := isIncomplete_unexpected.1 hi
    exact ⟨word "x" :: emptyFunction, fitting_x fitting_emptyFunction,
      finished_emptyFunction hk (n := (word "x").token) rfl⟩
  | parametersStart hk hn =>
    obtain rfl := isIncomplete_unexpected.1 hi
    exact ⟨emptyFunction, fitting_emptyFunction, finished_emptyFunction hk hn⟩
  | parameters hk hn ho hst =>
    -- the list is still open, since what it holds can be finished
    obtain ⟨ps, -, hfin⟩ := hst.completable_phrase hi rfl
    have hopen := mem_openParameters.2 ⟨[], _, _, _, rfl, hk, hn, ho, hfin.neutral.nest_isSome⟩
    obtain ⟨ps, hps, es, names, -, hes, hnames⟩ := exists_names (hp _ hopen)
    refine ⟨ps ++ mark ')' :: emptyBody, fitting_append.2 ⟨hps, fitting_mark (c := ')') rfl fitting_emptyBody⟩,
      ?_⟩
    simpa using finished_emptyBody hk hn ho hes (kind_mark (c := ')') rfl) hnames
  | bodyStart hk hn ho hd hc hps =>
    obtain rfl := isIncomplete_unexpected.1 hi
    exact ⟨emptyBody, fitting_emptyBody, by simpa using finished_emptyBody hk hn ho hd hc hps⟩
  | body hk hn ho hd hc hps hstart hst ih =>
    exact (ih hi hp.of_cons.of_cons.of_cons.of_append.of_cons.of_cons hst).close (c := '\x7d') rfl
      fun ws t ⟨ss, hss⟩ ht => ⟨_, _, by simpa using Spells.function hk hn ho hd hc hps hstart hss ht⟩
  | expression _ _ _ hst => exact (hst.completable_phrase hi rfl).map fun ws ⟨e, he⟩ => ⟨_, _, .bare he⟩
  | bodyEnd => exact .now ⟨_, .nil⟩
  | firstStatement _ _ hst ih =>
    exact (ih hi hp hst).map fun ws ⟨closed, s, hs⟩ =>
      ⟨_, by simpa using Spells.cons hs (fun _ => trivial) .nil⟩
  | @nextStatement _ s us _ _ hs hst ih =>
    obtain ⟨closed, hs, -⟩ := hs
    have hs : Spells Anywhere (.statement closed s) us := hs.mono fun _ _ _ _ _ _ _ => trivial
    exact (ih hi hp.of_append hst).map fun ws ⟨ss, hss⟩ =>
      ⟨_, by simpa using Spells.cons hs (fun _ => trivial) hss⟩
  | _ => exact whole.completable_phrase hi rfl

/-! ## What begins a program -/

/-- What was read is a program, or tokens are missing at its end and those that are there can stay. -/
def Viable (ts : List Token) : Except SyntaxFault Program → Prop
  | .ok _ => True
  | .error fault => fault.isIncomplete = true ∧ PlainParameters ts

instance Viable.decidable (ts : List Token) : (r : Except SyntaxFault Program) → Decidable (Viable ts r)
  | .ok _ => isTrue trivial
  | .error fault => inferInstanceAs (Decidable (fault.isIncomplete = true ∧ PlainParameters ts))

theorem Viable.completable {ts : List Token} (h : Viable ts (program stop ts)) : Completable (.statements false) ts := by
  cases hp : program stop ts with
  | ok p =>
    have hspells : Spells Anywhere (.statements p) ts := (program_eq_ok.1 hp).mono fun _ _ _ _ _ _ _ => trivial
    exact .now ⟨p, hspells⟩
  | error fault =>
    rw [hp] at h
    exact (program_eq_error.1 hp).completable h.1 h.2

/-- What stands before the end of an unfinished program is no worse. -/
theorem Stuck.viable_front {ts us : List Token} {f : SyntaxFault} (h : Stuck stop (.statements false) (ts ++ us) f)
    (hi : f.isIncomplete = true) (hp : PlainParameters ts) : Viable ts (program stop ts) := by
  cases hr : program stop ts with
  | ok p => trivial
  | error g =>
    refine ⟨?_, hp⟩
    by_contra hg
    have hfinal := (program_eq_error.1 hr).final (Bool.eq_false_of_not_eq_true hg) stop us
    rw [hfinal.unique h] at hg
    exact hg hi

/-! ## Tokens of open parameter lists -/

theorem Finished.standsInExpressions {goal : Goal} {ts : List Token} (h : Finished goal ts)
    (hg : goal.isPhrase = true) : ∀ t ∈ ts, standsInExpressions t.kind = true := by
  cases goal with
  | expr | arguments | entry | entries =>
    obtain ⟨_, h⟩ := h
    exact h.standsInExpressions
  | statement | statements => cases hg

theorem Stuck.standsInExpressions {goal : Goal} {ts : List Token} {f : SyntaxFault} (h : Stuck stop goal ts f)
    (hi : f.isIncomplete = true) (hg : goal.isPhrase = true) : ∀ t ∈ ts, standsInExpressions t.kind = true := by
  obtain ⟨ps, -, hfin⟩ := h.completable_phrase hi hg
  exact fun t ht => hfin.standsInExpressions hg t (List.mem_append_left _ ht)

/-- Whatever stands in a parameter list that is not closed can stand in an expression. -/
def ExpressionParameters (ts : List Token) : Prop :=
  ∀ us ∈ openParameters ts, ∀ u ∈ us, standsInExpressions u.kind = true

namespace ExpressionParameters

variable {ts us : List Token}

theorem of_forall (h : ∀ t ∈ ts, standsInExpressions t.kind = true) : ExpressionParameters ts :=
  fun _ hus u hu => h u (mem_of_mem_openParameters hus hu)

theorem behind (h : ExpressionParameters ts) (hus : ∀ t ∈ us, t.kind ≠ .fnWord) : ExpressionParameters (us ++ ts) :=
  fun vs hvs => h vs (mem_openParameters_of_append hvs hus)

theorem cons {t : Token} (h : ExpressionParameters ts) (ht : t.kind ≠ .fnWord) : ExpressionParameters (t :: ts) :=
  @behind _ [t] h (List.forall_mem_singleton.2 ht)

theorem fn {k : Token} (h : ExpressionParameters ts)
    (hopen : ∀ us, openHere? (k :: ts) = some us → ∀ u ∈ us, Grammar.standsInExpressions u.kind = true) :
    ExpressionParameters (k :: ts) := by
  intro us hus
  rw [openParameters, List.mem_append, Option.mem_toList] at hus
  exact hus.elim (hopen us) (h us)

/-- A parameter list that is closed is not open. -/
theorem closed {k n o c : Token} {es : List Expr} (hn : n.kind = .identifier) (ho : o.kind = .openParen)
    (hd : Derives (.arguments es) us) (hc : c.kind = .closeParen) (h : ExpressionParameters ts) :
    ExpressionParameters (k :: n :: o :: (us ++ c :: ts)) := by
  have hfront : ∀ t ∈ n :: o :: (us ++ [c]), t.kind ≠ .fnWord := by
    simp only [List.forall_mem_cons, List.forall_mem_append]
    exact ⟨by simp [hn], by simp [ho], hd.kind_ne_fnWord, by simp [hc], List.forall_mem_nil _⟩
  refine fn (by simpa using h.behind hfront) fun vs hvs => ?_
  obtain ⟨_, _, _, he, -, -, -, hopen⟩ := openHere?_eq_some.1 hvs
  cases he
  rw [hd.neutral.nest_closeParen hc] at hopen
  cases hopen

theorem behind_spells {E : List Token → List Token → Prop} {b : Block} (hb : Spells E b us)
    (h : ExpressionParameters ts) : ExpressionParameters (us ++ ts) := by
  intro vs hvs
  obtain ⟨ws, k, n, o, he, hk, hn, ho, hopen⟩ := mem_openParameters.1 hvs
  rcases append_eq_append_cons he with ⟨xs, rfl, hxs⟩ | ⟨xs, -, rfl⟩
  · obtain ⟨_, _, _, ps, c, rest, _, rfl, hd, hc, -⟩ := hb.arguments_behind hk
    simp only [List.cons_append, List.append_assoc, List.cons.injEq] at hxs
    rw [hxs.2.2, hd.neutral.nest_closeParen hc] at hopen
    cases hopen
  · exact h vs (mem_openParameters.2 ⟨xs, k, n, o, rfl, hk, hn, ho, hopen⟩)

end ExpressionParameters

theorem Stuck.expressionParameters {goal : Goal} {ts : List Token} {f : SyntaxFault} (h : Stuck stop goal ts f)
    (hi : f.isIncomplete = true) : ExpressionParameters ts := by
  have whole := h
  have declaration {k : Token} {us : List Token} (hk : k.kind = .letWord ∨ k.kind = .constWord)
      (h : ∀ t ∈ us, Grammar.standsInExpressions t.kind = true) : ExpressionParameters (k :: us) :=
    (ExpressionParameters.of_forall h).cons (by rcases hk with hk | hk <;> simp [hk])
  induction h with
  | missingInitializer | invalidParameter => cases hi
  | variableName hk =>
    obtain rfl := isIncomplete_unexpected.1 hi
    exact declaration hk (List.forall_mem_nil _)
  | initializer hk hn =>
    obtain rfl := isIncomplete_unexpected.1 hi
    exact declaration hk (by simp [hn, Grammar.standsInExpressions])
  | initial hk hn hq hst =>
    refine declaration hk ?_
    simp only [List.forall_mem_cons]
    exact ⟨by rw [hn]; rfl, by rw [hq]; rfl, hst.standsInExpressions hi rfl⟩
  | declarationEnd hk hn hq hw =>
    obtain rfl := isIncomplete_unexpected.1 hi
    refine declaration hk ?_
    simp only [List.forall_mem_cons, List.append_nil]
    exact ⟨by rw [hn]; rfl, by rw [hq]; rfl, hw.1.standsInExpressions⟩
  | functionName | parametersStart =>
    obtain rfl := isIncomplete_unexpected.1 hi
    exact fun us hus => nomatch hus
  | parameters hk hn ho hst =>
    have hstands := hst.standsInExpressions hi rfl
    refine .fn (.of_forall ?_) fun us hus => ?_
    · simp only [List.forall_mem_cons]
      exact ⟨by rw [hn]; rfl, by rw [ho]; rfl, hstands⟩
    · obtain ⟨_, _, _, he, -⟩ := openHere?_eq_some.1 hus
      cases he
      exact hstands
  | bodyStart hk hn ho hd hc =>
    obtain rfl := isIncomplete_unexpected.1 hi
    exact .closed hn ho hd hc fun us hus => nomatch hus
  | body hk hn ho hd hc _ hstart hst ih =>
    exact .closed hn ho hd hc ((ih hi hst).cons (by simp [hstart]))
  | expression _ _ _ hst => exact .of_forall (hst.standsInExpressions hi rfl)
  | bodyEnd => exact fun us hus => nomatch hus
  | firstStatement _ _ hst ih => exact ih hi hst
  | nextStatement hs hst ih =>
    obtain ⟨_, hs, -⟩ := hs
    exact .behind_spells hs (ih hi hst)
  | _ => exact .of_forall (whole.standsInExpressions hi rfl)

/-- Only a name can become another word in a list of names. -/
theorem PlainParameters.of_kindred {ts : List Token} {t t' : Token} (hk : t.kind.Kindred t'.kind)
    (ho : ExpressionParameters (ts ++ [t])) (h : PlainParameters (ts ++ [t'])) : PlainParameters (ts ++ [t]) := by
  rcases hk with hk | ⟨hw, hw'⟩
  · exact h.congr (by simp [hk])
  have plain {u : Token} (hu : u.kind.isWord = true) (opened : List Char) : nest opened [u] = some opened := by
    have hb : u.kind.bracket? = none := by cases hk : u.kind <;> simp_all [TokenKind.isWord, TokenKind.bracket?]
    rw [nest_plain hb, nest]
  have name {kind : TokenKind} (hw : kind.isWord = true) (hs : standsInExpressions kind = true) :
      kind = .identifier := by
    cases kind <;> simp_all [TokenKind.isWord, Grammar.standsInExpressions]
  intro vs hvs
  have hstands := ho vs hvs
  obtain ⟨ws, k, n, o, he, hfn, hid, hparen, hopen⟩ := mem_openParameters.1 hvs
  rcases vs.eq_nil_or_concat with rfl | ⟨xs, v, rfl⟩
  · -- the word would have to be the parenthesis
    have he : ts ++ [t] = (ws ++ [k, n]) ++ [o] := by simpa using he
    obtain rfl := List.singleton_inj.1 (List.append_inj_right' he rfl)
    rw [hparen] at hw
    cases hw
  · have he : ts ++ [t] = (ws ++ k :: n :: o :: xs) ++ [v] := by simpa using he
    obtain ⟨rfl, hv⟩ := List.append_inj' he rfl
    obtain rfl := List.singleton_inj.1 hv
    rw [List.concat_eq_append] at hopen hstands ⊢
    have hopen' : (nest [] (xs ++ [t'])).isSome := by
      rw [nest_append] at hopen ⊢
      simpa only [plain hw, plain hw'] using hopen
    have hnames := h (xs ++ [t']) (mem_openParameters.2 ⟨ws, k, n, o, by simp, hfn, hid, hparen, hopen'⟩)
    have ht : t.kind = .identifier := name hw (hstands t (by simp))
    have ht' : t'.kind = .identifier := name hw' (standsInExpressions_of_beginsNames hnames t' (by simp))
    have hkinds : (xs ++ [t]).map Token.kind = (xs ++ [t']).map Token.kind := by simp [ht, ht']
    rw [beginsNames_congr hkinds, hnames]

end RavenLang.Grammar

namespace RavenLang

open Grammar

/-! ## Texts -/

/-- Whether a text that ends here ends in a slash, which begins a comment if a slash or a star follows. -/
def Token.endsInSlash (stop : Nat) (t : Token) : Bool := t.isOperator ["/"] && t.span.stop == stop

/-- The tokens of a text that stay, whatever is put directly behind it. -/
def Token.lasting (stop : Nat) (ts : List Token) : List Token :=
  if ts.getLast?.any (endsInSlash stop) then ts.dropLast else ts

theorem Token.lasting_concat (stop : Nat) (ts : List Token) (t : Token) :
    lasting stop (ts ++ [t]) = if t.endsInSlash stop then ts else ts ++ [t] := by
  simp [lasting]

theorem Token.exists_lasting (stop : Nat) (ts : List Token) : ∃ us, ts = lasting stop ts ++ us := by
  rw [lasting]
  split
  · exact ⟨_, (List.prefix_iff_eq_append.1 (List.dropLast_prefix ts)).symm⟩
  · exact ⟨[], by simp⟩

namespace Program

variable {source : String} {ts : List Token}

/-- What can be completed is completed by further lines. -/
theorem exists_lines (h : Scanned 0 source.toList ts) (hc : Completable (.statements false) ts) :
    ∃ (more : String) (p : Program), ofSource (source ++ "\n" ++ more) = .ok p := by
  obtain ⟨ps, hps, p, hspells⟩ := hc
  obtain ⟨us, hus, hpieces⟩ := Token.scan_layout (layout_spaced ps) hps (0 + Text.size source.toList + 1)
  obtain ⟨_, he, hscan⟩ := Scanned.of_scan hus
  obtain rfl := List.append_cancel_right he
  have halike : Alike (ts ++ ps.map Piece.token) (ts ++ us) := by
    simp [Alike, hpieces, Function.comp_def]
  obtain ⟨q, hq, -⟩ := Spells.statements_alike (hspells.alike (fun _ _ _ => trivial) halike)
  obtain ⟨q, hq⟩ := exists_stops_of_anywhere hq
  refine ⟨.ofList (ps.flatMap fun q => q.spelled ++ [' ']), q, ofSource_eq_ok.2 ⟨ts ++ us, ?_, hq⟩⟩
  rw [Text.toList_lines, String.toList_ofList]
  exact h.lines_iff.2 ⟨us, rfl, hscan⟩

/-- A slash that a text ends with is taken away by a comment that it begins. -/
theorem scanned_comment {t : Token} (h : Scanned 0 source.toList (ts ++ [t]))
    (ht : t.endsInSlash (Text.size source.toList) = true) : Scanned 0 (source ++ "**/").toList ts := by
  simp only [Token.endsInSlash, Token.isOperator, Bool.and_eq_true, decide_eq_true_eq, List.contains_iff_mem,
    List.mem_singleton, beq_iff_eq] at ht
  obtain ⟨⟨hk, htext⟩, hstop⟩ := ht
  obtain ⟨before, taken, hcs, hb, hcut, htaken, -⟩ := h.exists_ending (by rw [hstop, Nat.zero_add])
  obtain rfl : taken = ['/'] := by
    have hcut := hcut.piece.2.1
    rw [Piece.spelled, ← htaken, htext] at hcut
    simpa [Piece.ofCut, hk] using hcut.symm
  have hcomment : ¬ ['*', '/'] <:+: ([] : List Char) := by simp
  have hhead : "/**/".toList.head? = ['/'].head? := rfl
  have hscan := (hb.congr_head hhead).scan
  rw [String.toList_append, hcs, List.append_assoc]
  exact (Scanned.iff_of_scan hscan).2 ⟨[], by simp, .trivia (@Cut.block [] [] hcomment) .nil⟩

end Program

/-- A text that ends too early goes on to a program in further lines exactly if no parameter list that is still
open holds more than names, and directly behind it exactly if that is so of the tokens that stay there: a slash that
it ends with can still begin a comment. -/
theorem Program.ofSource_completable {source : String} {ts : List Token} {fault : SyntaxFault}
    (hts : tokenize source = .ok ts) (h : ofSource source = .error fault) (hi : fault.isIncomplete = true) :
    ((∃ (more : String) (p : Program), ofSource (source ++ "\n" ++ more) = .ok p) ↔
      PlainParameters (Token.beforeEnd ts)) ∧
    ((∃ (more : String) (p : Program), ofSource (source ++ more) = .ok p) ↔
      PlainParameters (Token.lasting (Text.size source.toList) (Token.beforeEnd ts))) := by
  obtain ⟨ts, rfl, hs⟩ := Scanned.of_scan hts
  rw [Token.beforeEnd_append_endAt fun t ht => hs.ne_endOfInput ht]
  rw [ofSource_of_scanned hs] at h
  have hst := program_eq_error.1 h
  refine ⟨⟨?_, fun hp => exists_lines hs (hst.completable hi hp)⟩, ?_, fun hp => ?_⟩
  · rintro ⟨more, p, hok⟩
    obtain ⟨vs, hvs, hp⟩ := ofSource_eq_ok.1 hok
    rw [Text.toList_lines, hs.lines_iff] at hvs
    obtain ⟨us, rfl, -⟩ := hvs
    exact hp.plainParameters
  · rintro ⟨more, p, hok⟩
    obtain ⟨vs, hvs, hp⟩ := ofSource_eq_ok.1 hok
    rw [String.toList_append] at hvs
    obtain ⟨us, rfl⟩ | ⟨init, t, us, rfl, rfl, hlast⟩ := hs.directly hvs
    · obtain ⟨ws, hws⟩ := Token.exists_lasting (Text.size source.toList) ts
      rw [hws, List.append_assoc] at hp
      exact hp.plainParameters
    · rw [Token.lasting_concat]
      split
      · exact hp.plainParameters
      · next hslash =>
        rcases hlast with ⟨hk, htext, hstop⟩ | ⟨t', ws, rfl, hk⟩
        · exact absurd (by simp [Token.endsInSlash, Token.isOperator, hk, htext, hstop]) hslash
        · have hp : PlainParameters (init ++ [t']) := @Spells.plainParameters _ _ _ ws (by simpa using hp)
          exact hp.of_kindred hk (hst.expressionParameters hi)
  · have hlines (hp : PlainParameters ts) : ∃ (more : String) (p : Program), ofSource (source ++ more) = .ok p := by
      obtain ⟨more, p, hok⟩ := exists_lines hs (hst.completable hi hp)
      exact ⟨"\n" ++ more, p, by rwa [← String.append_assoc]⟩
    rcases ts.eq_nil_or_concat with rfl | ⟨init, t, rfl⟩
    · exact hlines hp
    · rw [List.concat_eq_append] at hs hst hp hlines
      rw [Token.lasting_concat] at hp
      split at hp
      · next hslash =>
        obtain ⟨more, p, hok⟩ := exists_lines (scanned_comment hs hslash) (hst.viable_front hi hp).completable
        exact ⟨"**/" ++ "\n" ++ more, p, by rwa [← String.append_assoc, ← String.append_assoc]⟩
      · exact hlines hp

/-- Names and an open parenthesis stand in the open parameter list of one text, a sum in that of another, and in
the last one a quotient, until a comment takes the slash away. -/
theorem Program.ofSource_completable_parameters :
    (∃ ts, tokenize "fn g() \x7b fn f(a, (b" = .ok ts ∧ ∃ fault,
      ofSource "fn g() \x7b fn f(a, (b" = .error fault ∧ fault.isIncomplete = true ∧
      ∃ (more : String) (p : Program), ofSource ("fn g() \x7b fn f(a, (b" ++ "\n" ++ more) = .ok p) ∧
    (∃ ts, tokenize "fn f(a +" = .ok ts ∧ ∃ fault,
      ofSource "fn f(a +" = .error fault ∧ fault.isIncomplete = true ∧
      ¬ ∃ (more : String) (p : Program), ofSource ("fn f(a +" ++ more) = .ok p) ∧
    ∃ ts, tokenize "fn f(a /" = .ok ts ∧ ∃ fault,
      ofSource "fn f(a /" = .error fault ∧ fault.isIncomplete = true ∧
      (¬ ∃ (more : String) (p : Program), ofSource ("fn f(a /" ++ "\n" ++ more) = .ok p) ∧
      ∃ (more : String) (p : Program), ofSource ("fn f(a /" ++ more) = .ok p := by
  refine ⟨?_, ?_, ?_⟩
  · obtain ⟨ts, hts, fault, hf, hi, hp⟩ : ∃ ts, tokenize "fn g() \x7b fn f(a, (b" = .ok ts ∧ ∃ fault,
        ofSource "fn g() \x7b fn f(a, (b" = .error fault ∧ fault.isIncomplete = true ∧
        PlainParameters (Token.beforeEnd ts) := by
      rw [ofSource_eq]
      decide +kernel
    exact ⟨ts, hts, fault, hf, hi, (ofSource_completable hts hf hi).1.2 hp⟩
  · obtain ⟨ts, hts, fault, hf, hi, hp⟩ : ∃ ts, tokenize "fn f(a +" = .ok ts ∧ ∃ fault,
        ofSource "fn f(a +" = .error fault ∧ fault.isIncomplete = true ∧
        ¬ PlainParameters (Token.lasting (Text.size "fn f(a +".toList) (Token.beforeEnd ts)) := by
      rw [ofSource_eq]
      decide +kernel
    exact ⟨ts, hts, fault, hf, hi, fun h => hp ((ofSource_completable hts hf hi).2.1 h)⟩
  · obtain ⟨ts, hts, fault, hf, hi, hp, hl⟩ : ∃ ts, tokenize "fn f(a /" = .ok ts ∧ ∃ fault,
        ofSource "fn f(a /" = .error fault ∧ fault.isIncomplete = true ∧ ¬ PlainParameters (Token.beforeEnd ts) ∧
        PlainParameters (Token.lasting (Text.size "fn f(a /".toList) (Token.beforeEnd ts)) := by
      rw [ofSource_eq]
      decide +kernel
    have hcompletable := ofSource_completable hts hf hi
    exact ⟨ts, hts, fault, hf, hi, fun h => hp (hcompletable.1.1 h), hcompletable.2.2 hl⟩

theorem Token.scan_number_parameter {cs : List Char} {us : List Token}
    (h : scan 0 ("fn f(1".toList ++ cs) = .ok us) :
    ∃ k n o t vs, us = k :: n :: o :: t :: vs ∧ k.kind = .fnWord ∧ n.kind = .identifier ∧ o.kind = .openParen ∧
      t.kind = .number := by
  have hspelled : "fn f(1".toList ++ cs =
      (Piece.word "fn").spelled ++ ' ' :: ((Piece.word "f").spelled ++ ((Piece.mark '(').spelled ++ '1' :: cs)) :=
    rfl
  rw [hspelled, scan_piece (p := Piece.word "fn") (fits_word (by decide) (by decide)) (by simp; decide),
    scan_blank (by decide),
    scan_piece (p := Piece.word "f") (fits_word (by decide) (by decide)) (by simp; decide),
    scan_piece (fits_mark rfl) (by simp; decide), scan_of_token (Lexeme.next_digits (by decide) cs)] at h
  cases hs : scan (0 + Text.size (Piece.word "fn").spelled + ' '.utf8Size + Text.size (Piece.word "f").spelled +
      Text.size (Piece.mark '(').spelled + Text.size ('1' :: cs.takeWhile Char.isDigit))
      (cs.dropWhile Char.isDigit) with
  | error fault =>
    rw [hs] at h
    cases h
  | ok vs =>
    rw [hs] at h
    cases h
    exact ⟨_, _, _, _, vs, rfl, rfl, rfl, rfl, rfl⟩

/-- A text can end too early and yet be no beginning of a program: a number stands where a name must. -/
theorem Program.ofSource_number_parameter :
    (∃ fault, ofSource "fn f(1" = .error fault ∧ fault.isIncomplete = true) ∧
      ∀ (more : String) (p : Program), ofSource ("fn f(1" ++ more) ≠ .ok p := by
  refine ⟨?_, fun more p h => ?_⟩
  · have hcheck : (match ofSource "fn f(1" with
        | .error fault => fault.isIncomplete
        | .ok _ => false) = true := by
      rw [ofSource_eq]
      decide +kernel
    split at hcheck
    · next fault hf => exact ⟨fault, hf, hcheck⟩
    · cases hcheck
  · obtain ⟨ts, hts, hp⟩ := ofSource_eq_ok.1 h
    have hscan := hts.scan
    rw [String.toList_append] at hscan
    obtain ⟨k, n, o, t, vs, he, hk, hn, ho, ht⟩ := Token.scan_number_parameter hscan
    have hend := congrArg Token.beforeEnd he
    rw [Token.beforeEnd_append_endAt fun t ht => hts.ne_endOfInput ht] at hend
    have hbefore : Token.beforeEnd (k :: n :: o :: t :: vs) = k :: n :: o :: t :: Token.beforeEnd vs := by
      simp [Token.beforeEnd, hk, hn, ho, ht]
    rw [hend, hbefore] at hp
    have hplain : PlainParameters [k, n, o, t] := @Spells.plainParameters _ _ [k, n, o, t] _ hp
    have hopen : (nest [] [t]).isSome := by simp [nest, ht, TokenKind.bracket?]
    have hnames := hplain [t] (mem_openParameters.2 ⟨[], k, n, o, rfl, hk, hn, ho, hopen⟩)
    simp [beginsNames, ht] at hnames

end RavenLang
