import RavenLang.Proofs.Grammar.Rejected
import RavenLang.Proofs.Grammar.Texts
import RavenLang.Proofs.Syntax.Spans

/-!
# Texts that stand elsewhere

The same tokens at other places spell the same trees, or are rejected with the same faults, at those
places: reading hands places on and looks at none. Where the input ends is told by the fault of an early
end only.
-/

namespace RavenLang

/-! ## Tokens and faults -/

def Token.mapSpan (f : Span → Span) (t : Token) : Token := { t with span := f t.span }

@[simp] theorem Token.kind_mapSpan (f : Span → Span) (t : Token) : (t.mapSpan f).kind = t.kind := rfl

@[simp] theorem Token.text_mapSpan (f : Span → Span) (t : Token) : (t.mapSpan f).text = t.text := rfl

theorem Token.mapSpan_id : mapSpan id = id := rfl

@[simp] theorem Token.span_mapSpan (f : Span → Span) (t : Token) : (t.mapSpan f).span = f t.span := rfl

def LexicalFault.mapSpan (f : Span → Span) (fault : LexicalFault) : LexicalFault :=
  { fault with span := f fault.span }

def SyntaxFault.mapSpan (f : Span → Span) : SyntaxFault → SyntaxFault
  | unexpectedToken found expected => unexpectedToken (found.mapSpan f) expected
  | unexpectedEnd expected span => unexpectedEnd expected (f span)
  | lexical fault => lexical (fault.mapSpan f)
  | missingInitializer span => missingInitializer (f span)
  | invalidParameter span => invalidParameter (f span)

/-- The fault as it is if the input ends at `stop`. -/
def SyntaxFault.endingAt (stop : Span) : SyntaxFault → SyntaxFault
  | unexpectedEnd expected _ => unexpectedEnd expected stop
  | fault => fault

theorem SyntaxFault.mapSpan_id (fault : SyntaxFault) : fault.mapSpan id = fault := by cases fault <;> rfl

theorem SyntaxFault.mapSpan_endingAt (f : Span → Span) (stop : Span) (fault : SyntaxFault) :
    (fault.endingAt stop).mapSpan f = (fault.mapSpan f).endingAt (f stop) := by
  cases fault <;> rfl

/-- What is read of a text. -/
abbrev Parsed := Except SyntaxFault Program

def Parsed.mapSpans (f : Span → Span) : Parsed → Parsed
  | .ok p => .ok (p.map (·.mapSpans f))
  | .error fault => .error (fault.mapSpan f)

/-- What is read, without its places. -/
abbrev Parsed.erase (r : Parsed) : Parsed := r.mapSpans .forget

namespace Grammar

def Form.mapSpans (f : Span → Span) : Form → Form
  | .expr l e => .expr l (e.mapSpans f)
  | .arguments es => .arguments (es.map (·.mapSpans f))
  | .entry e => .entry (e.mapSpans f)
  | .entries es => .entries (es.map (·.mapSpans f))

def Block.mapSpans (f : Span → Span) : Block → Block
  | .statement closed s => .statement closed (s.mapSpans f)
  | .statements ss => .statements (ss.map (·.mapSpans f))

/-! ## Derivations -/

section
variable {f : Span → Span}

theorem unexpected_moved (stop stop' : Span) (expected : String) (ts : List Token) :
    unexpected stop' expected (ts.map (Token.mapSpan f)) =
      ((unexpected stop expected ts).mapSpan f).endingAt stop' := by
  cases ts <;> rfl

theorem Without.mapSpan {kind : TokenKind} {ts : List Token} (h : Without kind ts) :
    Without kind (ts.map (Token.mapSpan f)) := by
  cases ts with
  | nil => exact without_nil kind
  | cons t ts =>
    have hk : t.kind ≠ kind := without_cons.1 h
    exact without_cons.2 hk

theorem Level.Stops.mapSpan {l : Level} {us rest : List Token} (h : l.Stops us rest) :
    l.Stops (us.map (Token.mapSpan f)) (rest.map (Token.mapSpan f)) := by
  obtain ⟨hb, hq⟩ := h
  refine ⟨?_, fun hl => (show Without .equals rest from hq hl).mapSpan⟩
  have hends : endsInBrace (us.map (Token.mapSpan f)) = endsInBrace us := by
    unfold endsInBrace
    rw [List.getLast?_map, Option.any_map]
    rfl
  rw [hends]
  refine hb.imp_right fun hh => ?_
  cases rest with
  | nil => exact hh
  | cons t rest =>
    have hk : l.goesOn t = false := Level.halts_cons.1 hh
    exact Level.halts_cons.2 hk

variable (hf : ∀ a b : Span, f (a.merge b) = (f a).merge (f b))
include hf

theorem Derives.mapSpans {g : Form} {ts : List Token} (h : Derives g ts) :
    Derives (g.mapSpans f) (ts.map (Token.mapSpan f)) := by
  induction h with
  | @name t hk => exact @Derives.name (t.mapSpan f) hk
  | @string t hk => exact @Derives.string (t.mapSpan f) hk
  | @number t x hk hx => exact @Derives.number (t.mapSpan f) x hk hx
  | @group o c e ts ho _ hc ih =>
    simpa [Form.mapSpans, hf] using @Derives.group (o.mapSpan f) (c.mapSpan f) _ _ ho ih hc
  | tighter hl _ ih => exact .tighter hl ih
  | @field e ts d n _ hd hn ih =>
    simpa [Form.mapSpans, Expr.mapSpans, hf] using
      @Derives.field _ _ (d.mapSpan f) (n.mapSpan f) ih hd hn
  | @index e ts o key us c _ ho _ hc ih ihk =>
    simpa [Form.mapSpans, Expr.mapSpans, hf] using
      @Derives.index _ _ (o.mapSpan f) _ _ (c.mapSpan f) ih ho ihk hc
  | @call e ts o es us c _ ho _ hc ih iha =>
    simpa [Form.mapSpans, Expr.mapSpans, hf] using
      @Derives.call _ _ (o.mapSpan f) _ _ (c.mapSpan f) ih ho iha hc
  | noArguments => exact .noArguments
  | argument _ ih => exact .argument ih
  | @nextArgument e ts c g es us _ hc _ ih iha =>
    simpa [Form.mapSpans] using @Derives.nextArgument _ _ (c.mapSpan f) _ _ _ ih hc iha
  | @binary l left ts op right us _ hop _ ihl ihr =>
    simpa [Form.mapSpans, Expr.mapSpans, hf] using @Derives.binary l _ _ (op.mapSpan f) _ _ ihl hop ihr
  | @shorthand k hk => exact @Derives.shorthand (k.mapSpan f) hk
  | @pair k c e ts hk hc _ ih =>
    simpa [Form.mapSpans, Entry.mapSpans, hf] using @Derives.pair (k.mapSpan f) (c.mapSpan f) _ _ hk hc ih
  | noEntries => exact .noEntries
  | lastEntry _ ih => exact .lastEntry ih
  | @nextEntry e ts c es us _ hc _ ih ihs =>
    simpa [Form.mapSpans] using @Derives.nextEntry _ _ (c.mapSpan f) _ _ ih hc ihs
  | @object o es ts c ho _ hc ih =>
    simpa [Form.mapSpans, Expr.mapSpans, hf] using @Derives.object (o.mapSpan f) _ _ (c.mapSpan f) ho ih hc
  | @assign target ts q value us _ hq _ iht ihv =>
    simpa [Form.mapSpans, Expr.mapSpans, hf] using @Derives.assign _ _ (q.mapSpan f) _ _ iht hq ihv

theorem Level.Whole.mapSpans {l : Level} {e : Expr} {us rest : List Token} (h : l.Whole e us rest) :
    l.Whole (e.mapSpans f) (us.map (Token.mapSpan f)) (rest.map (Token.mapSpan f)) :=
  ⟨h.1.mapSpans hf, h.2.mapSpan⟩

omit hf in
theorem map_name?_mapSpans {es : List Expr} {names : List String} (h : es.map Expr.name? = names.map some) :
    (es.map (·.mapSpans f)).map Expr.name? = names.map some := by
  simpa [Function.comp_def] using h

theorem Spells.mapSpans {b : Block} {ts : List Token} (h : Spells Level.assignment.Stops b ts) :
    Spells Level.assignment.Stops (b.mapSpans f) (ts.map (Token.mapSpan f)) := by
  induction h with
  | @undefined k n last hk hn hl =>
    simpa [Block.mapSpans, Stmt.mapSpans, hf] using
      @Spells.undefined _ (k.mapSpan f) (n.mapSpan f) (last.mapSpan f) hk hn hl
  | @defined k n q e ts last hk hn hq hd hl =>
    simp only [Block.mapSpans, Stmt.mapSpans, hf, Option.map_some, List.map_cons, List.map_append, List.map_nil]
    exact @Spells.defined _ (k.mapSpan f) (n.mapSpan f) (q.mapSpan f) _ _ (last.mapSpan f) hk hn hq (hd.mapSpans hf) hl
  | @function k n o es us c ps start body vs last hk hn ho hd hc hps hst _ hl ih =>
    simpa [Block.mapSpans, Stmt.mapSpans, hf] using
      @Spells.function _ (k.mapSpan f) (n.mapSpan f) (o.mapSpan f) _ _ (c.mapSpan f) ps (start.mapSpan f) _ _
        (last.mapSpan f) hk hn ho (hd.mapSpans hf) hc (map_name?_mapSpans hps) hst ih hl
  | @terminated e ts last hd hl =>
    simpa [Block.mapSpans, Stmt.mapSpans, hf] using
      @Spells.terminated _ _ _ (last.mapSpan f) (hd.mapSpans hf) hl
  | bare hd => simpa [Block.mapSpans, Stmt.mapSpans] using Spells.bare (hd.mapSpans hf)
  | nil => exact .nil
  | cons _ hend _ ihs ih =>
    simpa [Block.mapSpans] using Spells.cons ihs (fun hc => (hend hc).mapSpan) ih

theorem StatementAt.mapSpans {s : Stmt} {us rest : List Token} (h : StatementAt s us rest) :
    StatementAt (s.mapSpans f) (us.map (Token.mapSpan f)) (rest.map (Token.mapSpan f)) := by
  obtain ⟨closed, hs, hend⟩ := h
  refine ⟨closed, hs.mapSpans hf, fun hc => ⟨(hend hc).1.mapSpan, ?_⟩⟩
  exact (show Without .semicolon rest from (hend hc).2).mapSpan

/-! ## Faults -/

/-- Reading elsewhere gets stuck at the same tokens, wherever the input ends. -/
theorem Stuck.moved {stop : Span} {goal : Goal} {ts : List Token} {fault : SyntaxFault}
    (h : Stuck stop goal ts fault) (stop' : Span) :
    Stuck stop' goal (ts.map (Token.mapSpan f)) ((fault.mapSpan f).endingAt stop') := by
  induction h with
  | tighter hl hb _ ih => exact .tighter hl (fun ho => (hb ho).mapSpan) ih
  | operand hid hstr hnum hpar =>
    rw [← unexpected_moved]
    exact .operand hid.mapSpan hstr.mapSpan hnum.mapSpan hpar.mapSpan
  | @numeral t ts hk hx => exact @Stuck.numeral _ (t.mapSpan f) _ hk hx
  | @grouped o ts g ho _ ih => exact @Stuck.grouped _ (o.mapSpan f) _ _ ho ih
  | @groupEnd o e us rest ho hw hc =>
    simpa [← unexpected_moved] using @Stuck.groupEnd stop' (o.mapSpan f) _ _ _ ho (hw.mapSpans hf) hc.mapSpan
  | @propertyName e us d rest hd hk hn =>
    simpa [← unexpected_moved] using
      @Stuck.propertyName stop' _ _ (d.mapSpan f) _ (hd.mapSpans hf) hk hn.mapSpan
  | @key e us o ts g hd ho _ ih => simpa using @Stuck.key _ _ _ (o.mapSpan f) _ _ (hd.mapSpans hf) ho ih
  | @memberEnd e us o key vs rest hd ho hw hc =>
    simpa [← unexpected_moved] using
      @Stuck.memberEnd stop' _ _ (o.mapSpan f) _ _ _ (hd.mapSpans hf) ho (hw.mapSpans hf) hc.mapSpan
  | @called e us o ts g hd ho _ ih => simpa using @Stuck.called _ _ _ (o.mapSpan f) _ _ (hd.mapSpans hf) ho ih
  | firstArgument hc _ ih => exact .firstArgument hc.mapSpan ih
  | @nextArgument es us c ts g hes hd hc _ ih =>
    simpa using @Stuck.nextArgument _ _ _ (c.mapSpan f) _ _ (by simpa using hes) (hd.mapSpans hf) hc ih
  | @argumentsEnd es us rest hes hd hstop hcomma hclose =>
    simpa [← unexpected_moved] using
      @Stuck.argumentsEnd stop' _ _ _ (by simpa using hes) (hd.mapSpans hf) hstop.mapSpan hcomma.mapSpan
        hclose.mapSpan
  | @right l left us op ts g hd ho _ ih =>
    simpa using @Stuck.right _ l _ _ (op.mapSpan f) _ _ (hd.mapSpans hf) ho ih
  | @object o ts g ho _ ih => exact @Stuck.object _ (o.mapSpan f) _ _ ho ih
  | objectEnd => exact .objectEnd
  | firstEntry hne hc _ ih => exact .firstEntry (by simpa using hne) hc.mapSpan ih
  | @nextEntry e us c ts g he hc _ ih =>
    simpa using @Stuck.nextEntry _ _ _ (c.mapSpan f) _ _ (he.mapSpans hf) hc ih
  | entryKey hk =>
    rw [← unexpected_moved]
    exact .entryKey hk.mapSpan
  | @keyColon k ts hk hcomma hclose hcolon =>
    rw [← unexpected_moved]
    exact @Stuck.keyColon _ (k.mapSpan f) _ hk hcomma.mapSpan hclose.mapSpan hcolon.mapSpan
  | @entryValue k c ts g hk hc _ ih => exact @Stuck.entryValue _ (k.mapSpan f) (c.mapSpan f) _ _ hk hc ih
  | @entryEnd k c e us rest hk hc hw hclose hcomma =>
    simpa [← unexpected_moved] using
      @Stuck.entryEnd stop' (k.mapSpan f) (c.mapSpan f) _ _ _ hk hc (hw.mapSpans hf) hclose.mapSpan hcomma.mapSpan
  | @assigned target us q ts g hd hq _ ih =>
    simpa using @Stuck.assigned _ _ _ (q.mapSpan f) _ _ (hd.mapSpans hf) hq ih
  | @variableName k ts hk hn =>
    rw [← unexpected_moved]
    exact @Stuck.variableName _ (k.mapSpan f) _ hk hn.mapSpan
  | @missingInitializer k n last ts hk hn hl =>
    simpa [SyntaxFault.mapSpan, SyntaxFault.endingAt, hf] using
      @Stuck.missingInitializer stop' (k.mapSpan f) (n.mapSpan f) (last.mapSpan f) (ts.map (Token.mapSpan f)) hk hn hl
  | @initializer k n ts hk hn hsemi hq =>
    rw [← unexpected_moved]
    exact @Stuck.initializer _ (k.mapSpan f) (n.mapSpan f) _ hk hn hsemi.mapSpan hq.mapSpan
  | @initial k n q ts g hk hn hq _ ih =>
    exact @Stuck.initial _ (k.mapSpan f) (n.mapSpan f) (q.mapSpan f) _ _ hk hn hq ih
  | @declarationEnd k n q e us rest hk hn hq hw hl =>
    simpa [← unexpected_moved] using
      @Stuck.declarationEnd stop' (k.mapSpan f) (n.mapSpan f) (q.mapSpan f) _ _ _ hk hn hq (hw.mapSpans hf) hl.mapSpan
  | @functionName k ts hk hn =>
    rw [← unexpected_moved]
    exact @Stuck.functionName _ (k.mapSpan f) _ hk hn.mapSpan
  | @parametersStart k n ts hk hn ho =>
    rw [← unexpected_moved]
    exact @Stuck.parametersStart _ (k.mapSpan f) (n.mapSpan f) _ hk hn ho.mapSpan
  | @parameters k n o ts g hk hn ho _ ih =>
    exact @Stuck.parameters _ (k.mapSpan f) (n.mapSpan f) (o.mapSpan f) _ _ hk hn ho ih
  | @invalidParameter k n o es us c e ts hk hn ho hd hc he =>
    have he' : (es.map (·.mapSpans f)).find? (·.name?.isNone) = some (e.mapSpans f) := by
      rw [List.find?_map]
      simp [he]
    simpa [SyntaxFault.mapSpan, SyntaxFault.endingAt] using
      @Stuck.invalidParameter stop' (k.mapSpan f) (n.mapSpan f) (o.mapSpan f) _ _ (c.mapSpan f) _
        (ts.map (Token.mapSpan f)) hk hn ho (hd.mapSpans hf) hc he'
  | @bodyStart k n o es us c ts ps hk hn ho hd hc hps hopen =>
    simpa [← unexpected_moved] using
      @Stuck.bodyStart stop' (k.mapSpan f) (n.mapSpan f) (o.mapSpan f) _ _ (c.mapSpan f) _ ps hk hn ho
        (hd.mapSpans hf) hc (map_name?_mapSpans hps) hopen.mapSpan
  | @body k n o es us c start ts g ps hk hn ho hd hc hps hstart _ ih =>
    simpa using
      @Stuck.body _ (k.mapSpan f) (n.mapSpan f) (o.mapSpan f) _ _ (c.mapSpan f) (start.mapSpan f) _ _ ps hk hn ho
        (hd.mapSpans hf) hc (map_name?_mapSpans hps) hstart ih
  | expression hlet hconst hfn _ ih => exact .expression hlet.mapSpan hconst.mapSpan hfn.mapSpan ih
  | bodyEnd => exact .bodyEnd
  | firstStatement hne hc _ ih => exact .firstStatement (by simpa using hne) (fun hb => (hc hb).mapSpan) ih
  | nextStatement hs _ ih => simpa using Stuck.nextStatement (hs.mapSpans hf) ih

omit hf in
/-- An early end is reported where the input ends. -/
theorem Stuck.endingAt_self {stop : Span} {goal : Goal} {ts : List Token} {fault : SyntaxFault}
    (h : Stuck stop goal ts fault) : fault.endingAt stop = fault := by
  have here (expected : String) (ts : List Token) :
      (unexpected stop expected ts).endingAt stop = unexpected stop expected ts := by
    cases ts <;> rfl
  induction h with
  | tighter _ _ _ ih | grouped _ _ ih | key _ _ _ ih | called _ _ _ ih | firstArgument _ _ ih
  | nextArgument _ _ _ _ ih | right _ _ _ ih | object _ _ ih | firstEntry _ _ _ ih | nextEntry _ _ _ ih
  | entryValue _ _ _ ih | assigned _ _ _ ih | initial _ _ _ _ ih | parameters _ _ _ _ ih
  | body _ _ _ _ _ _ _ _ ih | expression _ _ _ _ ih | firstStatement _ _ _ ih | nextStatement _ _ ih => exact ih
  | objectEnd | bodyEnd | numeral | missingInitializer | invalidParameter => rfl
  | _ => exact here _ _

/-- What is read of tokens elsewhere. -/
theorem program_mapSpan (stop : Span) (ts : List Token) :
    program (f stop) (ts.map (Token.mapSpan f)) = Parsed.mapSpans f (program stop ts) := by
  cases hp : program stop ts with
  | ok p => exact program_eq_ok.2 ((program_eq_ok.1 hp).mapSpans hf)
  | error fault =>
    have hst := program_eq_error.1 hp
    have hmoved := hst.moved hf (f stop)
    rw [← SyntaxFault.mapSpan_endingAt, hst.endingAt_self] at hmoved
    exact program_eq_error.2 hmoved

end

/-- What is read of tokens that end elsewhere. -/
theorem program_endingAt (stop stop' : Span) (ts : List Token) :
    program stop' ts = (program stop ts).mapError (·.endingAt stop') := by
  cases hp : program stop ts with
  | ok p => exact program_eq_ok.2 (program_eq_ok.1 hp)
  | error fault =>
    have hmoved := (program_eq_error.1 hp).moved (f := id) (fun _ _ => rfl) stop'
    rw [SyntaxFault.mapSpan_id, Token.mapSpan_id, List.map_id] at hmoved
    exact program_eq_error.2 hmoved

end Grammar

/-! ## Texts -/

theorem Span.shift_merge (n : Nat) (a b : Span) : (a.merge b).shift n = (a.shift n).merge (b.shift n) := by
  simp only [merge, shift, mk.injEq]
  omega

/-- What is cut off a text that stands further behind stands further behind. -/
theorem Token.scan_shift (n o : Nat) (cs : List Char) :
    scan (o + n) cs = ((scan o cs).map (List.map (mapSpan (·.shift n)))).mapError (LexicalFault.mapSpan (·.shift n)) := by
  fun_induction scan o cs with
  | case1 o => rw [scan]; rfl
  | case2 o c cs cause hl =>
    rw [scan, hl]
    simp only [Except.map, Except.mapError, LexicalFault.mapSpan, Span.shift, Nat.add_right_comm]
  | case3 o c cs l hl hlt stop hk ih =>
    rw [scan, hl]
    simp only [hk, Nat.add_right_comm o n]
    exact ih
  | case4 o c cs l hl hlt stop kind hk ih =>
    rw [scan, hl]
    simp only [hk, Nat.add_right_comm o n]
    have ih : scan (o + Text.size l.taken + n) l.rest = _ := ih
    rw [ih]
    cases scan stop l.rest <;> rfl

end RavenLang
