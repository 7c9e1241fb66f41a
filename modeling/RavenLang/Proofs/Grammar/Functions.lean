import RavenLang.Proofs.Grammar.Nodes
import RavenLang.Proofs.Grammar.Parameters

/-!
# Functions and their parameters

Every `fn` is a function of the program and every function of it is an `fn`. Between its parentheses stand
names with commas between them, each of which may stand in parentheses of its own: they are gone once the
name is read.
-/

namespace RavenLang

namespace Grammar

variable {names : List String} {us vs ts : List Token} {k n : Token}

/-! ## Headers -/

/-- The tokens begin with `fn`, a name and the parameter list `us`. -/
structure Header (k n : Token) (us ts : List Token) : Prop where
  keyword : k.kind = .fnWord
  name : n.kind = .identifier
  neutral : Neutral us
  closed : ∃ o c rest, ts = k :: n :: o :: (us ++ c :: rest) ∧ o.kind = .openParen ∧ c.kind = .closeParen

/-- A parameter list ends at the parenthesis that closes it, so there is only one behind an `fn`. -/
theorem Header.unique {m : Token} (h : Header k n us ts) (h' : Header k m vs ts) : n = m ∧ us = vs := by
  obtain ⟨o, c, rest, rfl, -, hc⟩ := h.closed
  obtain ⟨o', c', rest', he, -, hc'⟩ := h'.closed
  obtain ⟨-, hn, -, he⟩ : k = k ∧ n = m ∧ o = o' ∧ us ++ c :: rest = vs ++ c' :: rest' := by simpa using he
  exact ⟨hn, h.neutral.eq_of_closeParen h'.neutral hc hc' he⟩

theorem Header.append (h : Header k n us ts) (ws : List Token) : Header k n us (ts ++ ws) := by
  obtain ⟨o, c, rest, rfl, ho, hc⟩ := h.closed
  exact ⟨h.keyword, h.name, h.neutral, o, c, rest ++ ws, by simp, ho, hc⟩

/-- What a function node is spelled by begins with its header. -/
theorem Header.of_spells {Ends : List Token → List Token → Prop} {closed : Bool} {span : Span} {name : String}
    {body : List Stmt} (h : Spells Ends (.statement closed (.function span name names body)) ts) :
    ∃ k n us, Header k n us ts ∧ n.text = name ∧ Listed Parameter names us := by
  obtain ⟨k, n, o, es, us, c, rest, rfl, hk, hn, hname, ho, hd, hc, hnames⟩ := h.exists_arguments
  exact ⟨k, n, us, ⟨hk, hn, hd.neutral, o, c, rest, rfl, ho, hc⟩, hname, .of_derives hd hnames⟩

/-- Somewhere among the tokens a function is declared, from the token `k` on. -/
def DeclaredIn (ts : List Token) (k n : Token) (us : List Token) : Prop := ∃ vs, vs <:+ ts ∧ Header k n us vs

theorem DeclaredIn.append (h : DeclaredIn ts k n us) (ws : List Token) : DeclaredIn (ts ++ ws) k n us := by
  obtain ⟨vs, ⟨before, rfl⟩, hh⟩ := h
  exact ⟨vs ++ ws, ⟨before, (List.append_assoc _ _ _).symm⟩, hh.append ws⟩

/-- A token of a text that is not its end has tokens of the text behind it, and the end. -/
theorem exists_rest_of_endAt {before after : List Token} {k : Token} {offset : Nat} (hk : k.kind ≠ .endOfInput)
    (h : ts ++ [.endAt offset] = before ++ k :: after) :
    ∃ rest, ts = before ++ k :: rest ∧ after = rest ++ [.endAt offset] := by
  rcases append_eq_append_cons h with h | ⟨ws, -, hws⟩
  · exact h
  · have hm : k ∈ ws ++ k :: after := by simp
    rw [← hws, List.mem_singleton] at hm
    exact absurd (hm ▸ rfl) hk

end Grammar

open Grammar

namespace Program

variable {source : String} {ts : List Token} {p : Program}

theorem declaredIn_of_holds (hp : Spells Level.assignment.Stops (.statements p) ts) (ho : Token.InOrder ts)
    {span : Span} {name : String} {parameters : List String} {body : List Stmt}
    (h : p.Holds (.stmt (.function span name parameters body))) :
    ∃ k n us, DeclaredIn ts k n us ∧ k.span.start = span.start ∧ n.text = name ∧
      Listed Parameter parameters us := by
  obtain ⟨before, ws, after, rfl, hs⟩ := h.exists_run hp
  have hw := (Token.inOrder_append.1 (Token.inOrder_append.1 ho).2.1).1
  have hstart := (hs.covers hw).start_eq
  obtain ⟨closed, hs⟩ := hs
  obtain ⟨k, n, us, hh, hname, hl⟩ := Header.of_spells hs
  refine ⟨k, n, us, ⟨ws ++ after, List.suffix_append _ _, hh.append after⟩, ?_, hname, hl⟩
  obtain ⟨o, c, rest, rfl, -, -⟩ := hh.closed
  exact Option.some.inj hstart

theorem holds_of_fnWord (hp : Spells Level.assignment.Stops (.statements p) ts) (ho : Token.InOrder ts)
    {before rest : List Token} {k : Token} (hts : ts = before ++ k :: rest) (hk : k.kind = .fnWord) :
    ∃ span name parameters body n us, p.Holds (.stmt (.function span name parameters body)) ∧
      span.start = k.span.start ∧ Header k n us (k :: rest) ∧ Listed Parameter parameters us := by
  obtain ⟨span, name, parameters, body, ws, after, he, hs, hn⟩ := hp.function_behind hts hk
  obtain ⟨k', n, us, hh, -, hl⟩ := Header.of_spells hs
  rw [hts, he] at ho
  have hstart := (hs.covers (Token.inOrder_append.1 (Token.inOrder_append.1 ho).2.1).1 _ rfl).start_eq
  have hall := hh.append after
  rw [← he] at hall
  obtain ⟨o, c, others, rfl, -, -⟩ := hh.closed
  obtain rfl : k = k' := (List.cons.inj he).1
  exact ⟨span, name, parameters, body, n, us, hn, (Option.some.inj hstart).symm, hall, hl⟩

/-- The functions of a program are those that are declared among its tokens. Their parameters are the names in
the list, in its order, and a list of anything else is a fault. -/
theorem ofSource_parameters (hts : tokenize source = .ok ts) :
    (∀ p, ofSource source = .ok p →
      (∀ span name parameters body, p.Holds (.stmt (.function span name parameters body)) →
        ∃ k n us, DeclaredIn ts k n us ∧ k.span.start = span.start ∧ n.text = name ∧
          Listed Parameter parameters us ∧
          ((∀ t ∈ us, t.kind ≠ .openParen) → Listed Bare parameters us)) ∧
      ∀ k ∈ ts, k.kind = .fnWord →
        ∃ span name parameters body, p.Holds (.stmt (.function span name parameters body)) ∧
          span.start = k.span.start) ∧
    ∀ k n us, DeclaredIn ts k n us → (∀ names, ¬ Listed Parameter names us) →
      ∃ fault, ofSource source = .error fault := by
  obtain ⟨tokens, rfl, hs⟩ := Scanned.of_scan hts
  have ho : Token.InOrder tokens := ⟨hs.lossless.nonempty, hs.lossless.ordered⟩
  have spelled {p : Program} (hp : ofSource source = .ok p) :
      Spells Level.assignment.Stops (.statements p) tokens :=
    program_eq_ok.1 (ofSource_of_scanned hs ▸ hp)
  constructor
  · intro p hp
    refine ⟨fun span name parameters body hn => ?_, fun k hk hfn => ?_⟩
    · obtain ⟨k, n, us, hd, hstart, hname, hl⟩ := declaredIn_of_holds (spelled hp) ho hn
      exact ⟨k, n, us, hd.append _, hstart, hname, hl, hl.bare⟩
    · obtain ⟨before, after, he⟩ := List.append_of_mem hk
      obtain ⟨rest, hts, -⟩ := exists_rest_of_endAt (by simp [hfn]) he
      obtain ⟨span, name, parameters, body, _, _, hn, hstart, -, -⟩ := holds_of_fnWord (spelled hp) ho hts hfn
      exact ⟨span, name, parameters, body, hn, hstart⟩
  · intro k n us ⟨vs, ⟨before, he⟩, hh⟩ hnone
    obtain ⟨o, c, others, rfl, -, -⟩ := hh.closed
    obtain ⟨rest, hts', hrest⟩ := exists_rest_of_endAt (by simp [hh.keyword]) he.symm
    cases hp : ofSource source with
    | error fault => exact ⟨fault, rfl⟩
    | ok p =>
      obtain ⟨_, _, parameters, _, _, _, -, -, hh', hl⟩ := holds_of_fnWord (spelled hp) ho hts' hh.keyword
      have hall := hh'.append [.endAt (0 + Text.size source.toList)]
      rw [List.cons_append, ← hrest] at hall
      obtain ⟨-, rfl⟩ := hh.unique hall
      exact absurd hl (hnone parameters)

/-- A function in a function, with a parameter in parentheses, and a function with a parameter that is no
name. -/
theorem ofSource_parameters_nested :
    (∃ ts p, tokenize "fn f(a, (b)) \x7b fn g(c) \x7b\x7d \x7d" = .ok ts ∧
      ofSource "fn f(a, (b)) \x7b fn g(c) \x7b\x7d \x7d" = .ok p ∧ p.length = 1 ∧
      (∀ span name parameters body, p.Holds (.stmt (.function span name parameters body)) →
        ∃ k n us, DeclaredIn ts k n us ∧ k.span.start = span.start ∧ n.text = name ∧
          Listed Parameter parameters us ∧
          ((∀ t ∈ us, t.kind ≠ .openParen) → Listed Bare parameters us)) ∧
      ∀ k ∈ ts, k.kind = .fnWord →
        ∃ span name parameters body, p.Holds (.stmt (.function span name parameters body)) ∧
          span.start = k.span.start) ∧
    ∃ ts k n u, tokenize "fn f(1) \x7b\x7d" = .ok ts ∧ DeclaredIn ts k n [u] ∧
      (∀ names, ¬ Listed Parameter names [u]) ∧ ∃ fault, ofSource "fn f(1) \x7b\x7d" = .error fault := by
  constructor
  · obtain ⟨ts, hts, -⟩ : ∃ ts, tokenize "fn f(a, (b)) \x7b fn g(c) \x7b\x7d \x7d" = .ok ts ∧ ts.length = 19 := by
      decide +kernel
    obtain ⟨p, hp, hlength⟩ : ∃ p, ofSource "fn f(a, (b)) \x7b fn g(c) \x7b\x7d \x7d" = .ok p ∧ p.length = 1 := by
      simp only [ofSource_eq]
      decide +kernel
    exact ⟨ts, p, hts, hp, hlength, (ofSource_parameters hts).1 p hp⟩
  · let rest : List Token := [⟨.openBrace, "\x7b", ⟨8, 9⟩⟩, ⟨.closeBrace, "\x7d", ⟨9, 10⟩⟩, .endAt 10]
    let o : Token := ⟨.openParen, "(", ⟨4, 5⟩⟩
    let c : Token := ⟨.closeParen, ")", ⟨6, 7⟩⟩
    let ts : List Token := ⟨.fnWord, "fn", ⟨0, 2⟩⟩ :: ⟨.identifier, "f", ⟨3, 4⟩⟩ :: o ::
      ([⟨.number, "1", ⟨5, 6⟩⟩] ++ c :: rest)
    have hts : tokenize "fn f(1) \x7b\x7d" = .ok ts := by decide +kernel
    have hd : DeclaredIn ts ⟨.fnWord, "fn", ⟨0, 2⟩⟩ ⟨.identifier, "f", ⟨3, 4⟩⟩ [⟨.number, "1", ⟨5, 6⟩⟩] :=
      ⟨ts, List.suffix_rfl, rfl, rfl, .cons rfl .nil, o, c, rest, rfl, rfl, rfl⟩
    have hnone (names : List String) : ¬ Listed Parameter names [⟨.number, "1", ⟨5, 6⟩⟩] :=
      fun h => absurd h.beginsNames (by decide)
    exact ⟨ts, _, _, _, hts, hd, hnone, (ofSource_parameters hts).2 _ _ _ hd hnone⟩

/-- A parameter in parentheses is read as if it stood there without them. -/
theorem ofSource_parameters_grouped :
    ∃ ts p span, tokenize "fn f((a)) \x7b\x7d" = .ok ts ∧ ofSource "fn f((a)) \x7b\x7d" = .ok p ∧
      p.Holds (.stmt (.function span "f" ["a"] [])) ∧
      ∀ k n us, DeclaredIn ts k n us → ∀ names, ¬ Listed Bare names us := by
  let k : Token := ⟨.fnWord, "fn", ⟨0, 2⟩⟩
  let n : Token := ⟨.identifier, "f", ⟨3, 4⟩⟩
  let o : Token := ⟨.openParen, "(", ⟨4, 5⟩⟩
  let o' : Token := ⟨.openParen, "(", ⟨5, 6⟩⟩
  let a : Token := ⟨.identifier, "a", ⟨6, 7⟩⟩
  let c' : Token := ⟨.closeParen, ")", ⟨7, 8⟩⟩
  let c : Token := ⟨.closeParen, ")", ⟨8, 9⟩⟩
  let start : Token := ⟨.openBrace, "\x7b", ⟨10, 11⟩⟩
  let last : Token := ⟨.closeBrace, "\x7d", ⟨11, 12⟩⟩
  let ts : List Token := [k, n, o, o', a, c', c, start, last]
  have hts : tokenize "fn f((a)) \x7b\x7d" = .ok (ts ++ [.endAt 12]) := by decide +kernel
  have hp : ofSource "fn f((a)) \x7b\x7d" = .ok [.function (k.span.merge last.span) "f" ["a"] []] := by
    obtain ⟨us, he, hs⟩ := Scanned.of_scan hts
    obtain rfl : ts = us := List.append_inj_left' he rfl
    have harguments : Derives (.arguments [.name (o'.span.merge c'.span) "a"]) [o', a, c'] :=
      .argument (.loosen (.group (e := .name a.span a.text) rfl (.loosen (.name rfl) (by decide)) rfl) (by decide))
    have hfunction : Spells Level.assignment.Stops (.statements [.function (k.span.merge last.span) "f" ["a"] []])
        (ts ++ []) :=
      .cons (.function (n := n) rfl rfl rfl harguments rfl rfl rfl .nil rfl) Bool.noConfusion .nil
    exact ofSource_eq_ok.2 ⟨ts, hs, List.append_nil ts ▸ hfunction⟩
  refine ⟨_, _, _, hts, hp, .stmt List.mem_cons_self, ?_⟩
  intro k' n' us hd names hl
  obtain ⟨vs, hvs, hh⟩ := hd
  obtain ⟨_, c, others, rfl, -, hc⟩ := hh.closed
  have hrest : ∀ t ∈ ts.tail ++ [.endAt 12], t.kind ≠ .fnWord := by decide
  rcases List.suffix_cons_iff.1 hvs with he | hvs
  · have he : us ++ c :: others = o' :: (ts.drop 4 ++ [.endAt 12]) :=
      (List.cons.inj (List.cons.inj (List.cons.inj he).2).2).2
    cases us with
    | nil =>
      rw [(List.cons.inj he).1] at hc
      cases hc
    | cons t us =>
      have ht := hl.kind_head
      rw [(List.cons.inj he).1] at ht
      cases ht
  · exact hrest k' (hvs.subset List.mem_cons_self) hh.keyword

end Program

end RavenLang
