import RavenLang.Proofs.Grammar.Ambiguity
import RavenLang.Proofs.Grammar.Texts
import RavenLang.Proofs.Grammar.Unplaced
import RavenLang.Proofs.Syntax.Source

/-!
# Written trees are read back

The grammar derives every tree from its own pieces, and so does the reader from
any text that spells them.
-/

namespace RavenLang.Grammar

open Piece

/-! ## Derivations of written trees -/

theorem kind_mark {c : Char} {kind : TokenKind} (h : TokenKind.ofMark? c = some kind) :
    (mark c).token.kind = kind := by
  simp [mark, h]

theorem Derives.grouped {l : Level} {e : Expr} {ps : List Piece} (required : Level)
    (h : Derives (.expr l e.erase) (ps.map Piece.token)) :
    Derives (.expr required e.erase) ((grouped required l ps).map Piece.token) := by
  unfold RavenLang.grouped
  split
  · next hle => exact h.loosen hle
  · have hg := Derives.group (kind_mark (c := '(') rfl) (h.loosen (Nat.zero_le _)) (kind_mark (c := ')') rfl)
    have hs : (mark '(').token.span.merge (mark ')').token.span = default := rfl
    rw [hs, Expr.withSpan_erase] at hg
    simpa using hg.loosen (m := required) (by cases required <;> decide)

theorem isOperator_level {s : Span} {op : String} {l r : Expr} (h : op ∈ ["+", "-", "*", "/", "%", "^"]) :
    (⟨.operator, op⟩ : Piece).token.isOperator (Expr.binary s op l r).level.operators = true := by
  simp only [List.mem_cons, List.not_mem_nil, or_false] at h
  rcases h with rfl | rfl | rfl | rfl | rfl | rfl <;> rfl

theorem kind_word {n : String} (h : IsName n) : (word n).token.kind = .identifier := h.2.2

variable {digits : Float → String}

mutual

theorem Derives.pieces (e : Expr) (he : e.WellFormed (Number.WrittenBy digits)) :
    Derives (.expr e.level e.erase) ((e.pieces digits).map Piece.token) := by
  match e, he with
  | .name _ n, .name hn => exact .name (t := (word n).token) (kind_word hn)
  | .number _ x, .number hx => exact .number (t := (⟨.number, digits x⟩ : Piece).token) rfl hx.2
  | .string _ t, .string _ => exact .string (t := (⟨.string, t⟩ : Piece).token) rfl
  | .object _ es, .object hes =>
    have h := Derives.object (kind_mark (c := '\x7b') rfl) (Derives.piecesEntries es hes)
      (kind_mark (c := '\x7d') rfl)
    simpa [Expr.pieces, Expr.mapSpans] using h
  | .binary s op l r, .binary hop hl hr =>
    have hl := (Derives.pieces l hl).grouped (Expr.binary s op l r).level
    have hr := (Derives.pieces r hr).grouped (Expr.binary s op l r).level.tighter
    have h := Derives.binary hl (isOperator_level hop) hr
    simpa [Expr.pieces, Expr.mapSpans] using h
  | .assign s t v, .assign ht hv =>
    have ht := (Derives.pieces t ht).grouped .object
    have hv := (Derives.pieces v hv).loosen (m := .assignment) (Nat.zero_le _)
    have h := Derives.assign ht (kind_mark (c := '=') rfl) hv
    simpa [Expr.pieces, Expr.mapSpans] using h
  | .call s f as, .call hf has =>
    have hf := (Derives.pieces f hf).grouped .postfixed
    have h := Derives.call hf (kind_mark (c := '(') rfl) (Derives.piecesArguments as has)
      (kind_mark (c := ')') rfl)
    simpa [Expr.pieces, Expr.mapSpans] using h
  | .member _ false o (.name _ n), .field ho hn =>
    have ho := (Derives.pieces o ho).grouped .postfixed
    have h := Derives.field ho (kind_mark (c := '.') rfl) (kind_word hn)
    simpa [Expr.pieces, Expr.mapSpans] using h
  | .member _ true o p, .index ho hp =>
    have ho := (Derives.pieces o ho).grouped .postfixed
    have hp := (Derives.pieces p hp).loosen (m := .assignment) (Nat.zero_le _)
    have h := Derives.index ho (kind_mark (c := '[') rfl) hp (kind_mark (c := ']') rfl)
    simpa [Expr.pieces, Expr.mapSpans] using h

theorem Derives.piecesEntry (e : Entry) (he : e.WellFormed (Number.WrittenBy digits)) :
    Derives (.entry e.erase) ((e.pieces digits).map Piece.token) := by
  match e, he with
  | .shorthand _ k, .shorthand hk => exact .shorthand (k := (word k).token) (kind_word hk)
  | .pair _ k v, .pair hk hv =>
    have hv := (Derives.pieces v hv).loosen (m := .assignment) (Nat.zero_le _)
    have h := Derives.pair (kind_word hk) (kind_mark (c := ':') rfl) hv
    simpa [Entry.pieces, Entry.mapSpans] using h

theorem Derives.piecesEntries (es : List Entry) (hes : ∀ e ∈ es, e.WellFormed (Number.WrittenBy digits)) :
    Derives (.entries (es.map Entry.erase)) ((commas (Entry.piecesAll digits es)).map Piece.token) := by
  match es with
  | [] => exact .noEntries
  | [e] => exact .lastEntry (Derives.piecesEntry e (hes e List.mem_cons_self))
  | e :: f :: es =>
    have he := Derives.piecesEntry e (hes e List.mem_cons_self)
    have hs := Derives.piecesEntries (f :: es) fun g hg => hes g (List.mem_cons_of_mem e hg)
    have h := Derives.nextEntry he (kind_mark (c := ',') rfl) hs
    simpa [Entry.piecesAll, commas] using h

theorem Derives.piecesArguments (es : List Expr) (hes : ∀ e ∈ es, e.WellFormed (Number.WrittenBy digits)) :
    Derives (.arguments (es.map Expr.erase)) ((commas (Expr.piecesAll digits es)).map Piece.token) := by
  match es with
  | [] => exact .noArguments
  | [e] => exact .argument ((Derives.pieces e (hes e List.mem_cons_self)).loosen (Nat.zero_le _))
  | e :: f :: es =>
    have he := (Derives.pieces e (hes e List.mem_cons_self)).loosen (m := .assignment) (Nat.zero_le _)
    have hs := Derives.piecesArguments (f :: es) fun g hg => hes g (List.mem_cons_of_mem e hg)
    have h := Derives.nextArgument he (kind_mark (c := ',') rfl) hs
    simpa [Expr.piecesAll, commas] using h

end

theorem Derives.parameters (ps : List String) (hps : ∀ p ∈ ps, IsName p) :
    Derives (.arguments (ps.map (.name default))) ((commas (ps.map fun p => [word p])).map Piece.token) := by
  have hname {p : String} (hp : IsName p) : Derives (.expr .assignment (.name default p)) [(word p).token] :=
    (Derives.name (t := (word p).token) (kind_word hp)).loosen (Nat.zero_le _)
  match ps with
  | [] => exact .noArguments
  | [p] => exact .argument (hname (hps p List.mem_cons_self))
  | p :: q :: ps =>
    have h := Derives.parameters (q :: ps) fun r hr => hps r (List.mem_cons_of_mem p hr)
    exact .nextArgument (hname (hps p List.mem_cons_self)) (kind_mark (c := ',') rfl) h

variable {Ends : List Token → List Token → Prop}

mutual

/-- A written statement ends by itself, so nothing depends on where others may end. -/
theorem Spells.pieces (s : Stmt) (hs : s.WellFormed (Number.WrittenBy digits)) :
    Spells Ends (.statement true s.erase) ((s.pieces digits).map Piece.token) := by
  match s, hs with
  | .declare _ false n none, .undefined hn =>
    exact .undefined (k := (word "let").token) rfl (kind_word hn) (kind_mark (c := ';') rfl)
  | .declare _ constant n (some e), .defined hn he =>
    have he := (Derives.pieces e he).loosen (m := .assignment) (Nat.zero_le _)
    cases constant with
    | false =>
      have hk : (word "let").kind = .letWord := rfl
      have h : Spells Ends _ _ := .defined (k := (word "let").token) (.inl rfl) (kind_word hn)
        (kind_mark (c := '=') rfl) he (kind_mark (c := ';') rfl)
      simpa [Stmt.pieces, Stmt.mapSpans, hk] using h
    | true =>
      have hk : (word "const").kind = .constWord := rfl
      have h : Spells Ends _ _ := .defined (k := (word "const").token) (.inr rfl) (kind_word hn)
        (kind_mark (c := '=') rfl) he (kind_mark (c := ';') rfl)
      simpa [Stmt.pieces, Stmt.mapSpans, hk] using h
  | .function _ n ps body, .function hn hps hbody =>
    have hnames : (ps.map (Expr.name default)).map Expr.name? = ps.map some := by simp [Expr.name?]
    have h := Spells.function (k := (word "fn").token) rfl (kind_word hn) (kind_mark (c := '(') rfl)
      (Derives.parameters ps hps) (kind_mark (c := ')') rfl) hnames (kind_mark (c := '\x7b') rfl)
      (Spells.piecesAll body hbody) (kind_mark (c := '\x7d') rfl)
    simpa [Stmt.pieces, Stmt.mapSpans] using h
  | .expr _ e, .expr he =>
    have he := (Derives.pieces e he).loosen (m := .assignment) (Nat.zero_le _)
    have h : Spells Ends _ _ := .terminated he (kind_mark (c := ';') rfl)
    simpa [Stmt.pieces, Stmt.mapSpans] using h

theorem Spells.piecesAll (ss : List Stmt) (hss : ∀ s ∈ ss, s.WellFormed (Number.WrittenBy digits)) :
    Spells Ends (.statements (ss.map Stmt.erase)) ((Stmt.piecesAll digits ss).map Piece.token) := by
  match ss with
  | [] => exact .nil
  | s :: ss =>
    have hs := Spells.pieces s (hss s List.mem_cons_self)
    have h := Spells.cons hs nofun (Spells.piecesAll ss fun r hr => hss r (List.mem_cons_of_mem s hr))
    simpa [Stmt.piecesAll] using h

end

end RavenLang.Grammar

namespace RavenLang

open Grammar

theorem Program.ofSource_of_tokenize {text : String} {ts : List Token} {offset : Nat} {q : Program}
    (hts : tokenize text = .ok (ts ++ [Token.endAt offset])) (hend : ∀ t ∈ ts, t.kind ≠ .endOfInput)
    (hq : Spells Level.assignment.Stops (.statements q) ts) : Program.ofSource text = .ok q := by
  rw [ofSource, hts]
  simp only [ofTokens_eq, Token.beforeEnd_append_endAt hend]
  exact program_eq_ok.2 hq

theorem Program.ofSource_layout {digits : Float → String} {p : Program}
    (hp : p.WellFormed (Number.WrittenBy digits)) {text : String} (h : Layout (p.pieces digits) text.toList) :
    ∃ q, Program.ofSource text = .ok q ∧ q.erase = p.erase := by
  have hfit : Fitting (p.pieces digits) := Fitting.piecesAll p hp
  obtain ⟨ts, hts, hps⟩ := Token.scan_layout h hfit 0
  have hend : ∀ t ∈ ts, t.kind ≠ .endOfInput := fun t ht =>
    (hfit t.piece (hps ▸ List.mem_map_of_mem ht)).ne_endOfInput
  have halike : Alike ((p.pieces digits).map Piece.token) ts := by simp [Alike, hps, Function.comp_def]
  -- every written statement ends by itself, so it does not matter where others may end
  have hp : Spells (fun _ _ => False) (.statements (p.map Stmt.erase)) ((p.pieces digits).map Piece.token) :=
    Spells.piecesAll p hp
  obtain ⟨q, hq, he⟩ := Spells.statements_alike (hp.alike (fun _ _ h => h) halike)
  have hstops : Spells Level.assignment.Stops (.statements q) ts := hq.mono fun _ _ _ _ _ _ h => h.elim
  exact ⟨q, ofSource_of_tokenize hts hend hstops, he.trans (Program.erase_erase p)⟩

theorem Program.layout_source (digits : Float → String) (p : Program) :
    Layout (p.pieces digits) (p.source digits).toList := by
  rw [source, String.toList_ofList]
  exact layout_spaced (p.pieces digits)

/-- Writing a program and reading the text gives the program back, whatever trivia is put
between its pieces. Digits that are read back exist for every whole number. -/
theorem Program.ofSource_source (p : Program) :
    (∀ digits : Float → String, p.WellFormed (Number.WrittenBy digits) →
      (∃ q, Program.ofSource (p.source digits) = .ok q ∧ q.erase = p.erase) ∧
        ∀ text : String, Layout (p.pieces digits) text.toList →
          ∃ q, Program.ofSource text = .ok q ∧ q.erase = p.erase) ∧
      (p.WellFormed Number.IsWhole →
        ∃ q, Program.ofSource (p.source Number.decimal) = .ok q ∧ q.erase = p.erase) := by
  refine ⟨fun digits hp => ⟨?_, fun text h => ?_⟩, fun hp => ?_⟩
  · exact ofSource_layout hp (p.layout_source digits)
  · exact ofSource_layout hp h
  · have hdigits : p.WellFormed (Number.WrittenBy Number.decimal) := fun s hs =>
      (hp s hs).mono fun _ hx => Number.writtenBy_decimal hx
    exact ofSource_layout hdigits (p.layout_source Number.decimal)

/-- An object literal is called, a difference subtracted, a sum multiplied. -/
theorem Program.ofSource_source_nested :
    let s : Span := default
    let two := Number.ofDecimal false (Number.digitsValue "2".toList) 0
    let sum : Expr := .binary s "+" (.name s "a") (.binary s "-" (.name s "b") (.number s two))
    let object : Expr := .object s [.shorthand s "a", .pair s "k" (.binary s "*" sum (.name s "c"))]
    let p : Program := [.expr s (.assign s (.name s "x")
      (.member s false (.call s object [.string s "y"]) (.name s "z")))]
    let text := "x = ( \x7b a , k : ( a + ( b - 2 ) ) * c \x7d ) ( \"y\" ) . z ; "
    p.WellFormed (Number.WrittenBy fun _ => "2") ∧ p.WellFormed Number.IsWhole ∧
      p.source (fun _ => "2") = text ∧ p.source Number.decimal = text ∧
      (∃ q, Program.ofSource (p.source fun _ => "2") = .ok q ∧ q.erase = p.erase) ∧
      ∃ q, Program.ofSource (p.source Number.decimal) = .ok q ∧ q.erase = p.erase := by
  intro s two sum object p text
  have hp {number : Float → Prop} (htwo : number two) : p.WellFormed number := by
    have hname {n : String} (h : IsName n) : (Expr.name s n).WellFormed number := .name h
    have hsum : sum.WellFormed number :=
      .binary (by decide) (hname (by decide)) (.binary (by decide) (hname (by decide)) (.number htwo))
    have hobject : object.WellFormed number := by
      refine .object (List.forall_mem_cons.2 ⟨.shorthand (by decide), List.forall_mem_cons.2 ⟨?_, by simp⟩⟩)
      exact .pair (by decide) (.binary (by decide) hsum (hname (by decide)))
    have hcall : (Expr.call s object [.string s "y"]).WellFormed number :=
      .call hobject (List.forall_mem_cons.2 ⟨.string (by decide), by simp⟩)
    exact List.forall_mem_cons.2 ⟨.expr (.assign (hname (by decide)) (.field hcall (by decide))), by simp⟩
  have hread : Number.WrittenBy (fun _ => "2") two := ⟨by decide, Number.read?_of_isDigits (by decide)⟩
  have hwhole : Number.IsWhole two := ⟨2, 4503599627370496, -51, by decide +kernel, by decide +kernel⟩
  have hsource : p.source (fun _ => "2") = text := by decide +kernel
  have hdecimal : p.source Number.decimal = text := by decide +kernel
  refine ⟨hp hread, hp hwhole, hsource, hdecimal, ?_, ?_⟩
  · exact ((Program.ofSource_source p).1 _ (hp hread)).1
  · exact (Program.ofSource_source p).2 (hp hwhole)

end RavenLang
