import RavenLang.Proofs.Grammar.Rejected
import RavenLang.Proofs.Grammar.Texts
import RavenLang.Proofs.Number.Magnitude
import RavenLang.Proofs.Syntax.Source
import RavenLang.Proofs.Token.Spaced

/-!
# Shapes of programs

The texts of tokens are those of their kinds, so what tokens spell has the shapes that source text has.
-/

namespace RavenLang

/-! ## Tokens -/

namespace Token.Proper

variable {t : Token}

theorem isName (h : t.Proper) (hk : t.kind = .identifier) : IsName t.text := by
  rw [Proper, hk] at h
  obtain ⟨hne, ha, hwords⟩ := h
  exact ⟨hne, ha, TokenKind.ofWord_eq_identifier.2 (by rwa [String.ofList_toList])⟩

theorem isDigits (h : t.Proper) (hk : t.kind = .number) : Number.IsDigits t.text.toList := by
  rw [Proper, hk] at h
  exact h

theorem quotes (h : t.Proper) (hk : t.kind = .string) : '"' ∉ t.text.toList := by
  rw [Proper, hk] at h
  exact h

end Token.Proper

theorem Expr.WellFormed.withSpan {number : Float → Prop} {e : Expr} (h : e.WellFormed number) (s : Span) :
    (e.withSpan s).WellFormed number := by
  cases h with
  | name hn => exact .name hn
  | number hx => exact .number hx
  | string ht => exact .string ht
  | object hes => exact .object hes
  | binary hop hl hr => exact .binary hop hl hr
  | assign ht hv => exact .assign ht hv
  | call hf has => exact .call hf has
  | field ho hn => exact .field ho hn
  | index ho hp => exact .index ho hp

namespace Grammar

theorem Level.mem_operators {l : Level} {op : String} (h : op ∈ l.operators) :
    op ∈ ["+", "-", "*", "/", "%", "^"] := by
  cases l <;> simp only [operators, List.not_mem_nil, List.mem_cons] at h ⊢ <;> tauto

/-! ## Trees -/

def Form.WellFormed (number : Float → Prop) : Form → Prop
  | .expr _ e => e.WellFormed number
  | .arguments es => ∀ e ∈ es, e.WellFormed number
  | .entry e => e.WellFormed number
  | .entries es => ∀ e ∈ es, e.WellFormed number

def Block.WellFormed (number : Float → Prop) : Block → Prop
  | .statement _ s => s.WellFormed number
  | .statements ss => ∀ s ∈ ss, s.WellFormed number

abbrev AllProper (ts : List Token) : Prop := ∀ t ∈ ts, t.Proper

section
variable {us ts : List Token}

theorem Derives.wellFormed {f : Form} (h : Derives f ts) (ht : AllProper ts) : f.WellFormed Number.IsNumeral := by
  induction h with
  | name hk => exact .name ((ht _ List.mem_cons_self).isName hk)
  | string hk => exact .string ((ht _ List.mem_cons_self).quotes hk)
  | number hk hx => exact .number ⟨_, (ht _ List.mem_cons_self).isDigits hk, hx⟩
  | group _ _ _ ih =>
    simp only [AllProper, List.forall_mem_cons, List.forall_mem_append] at ht
    exact (ih ht.2.1).withSpan _
  | tighter _ _ ih => exact ih ht
  | field _ _ hn ih =>
    simp only [AllProper, List.forall_mem_cons, List.forall_mem_append] at ht
    exact .field (ih ht.1) (ht.2.2.1.isName hn)
  | index _ _ _ _ ih ihk =>
    simp only [AllProper, List.forall_mem_cons, List.forall_mem_append] at ht
    exact .index (ih ht.1) (ihk ht.2.2.1)
  | call _ _ _ _ ih iha =>
    simp only [AllProper, List.forall_mem_cons, List.forall_mem_append] at ht
    exact .call (ih ht.1) (iha ht.2.2.1)
  | noArguments | noEntries => exact List.forall_mem_nil _
  | argument _ ih | lastEntry _ ih => exact List.forall_mem_singleton.2 (ih ht)
  | nextArgument _ _ _ ih ihs | nextEntry _ _ _ ih ihs =>
    simp only [AllProper, List.forall_mem_cons, List.forall_mem_append] at ht
    exact List.forall_mem_cons.2 ⟨ih ht.1, ihs ht.2.2⟩
  | binary _ hop _ ihl ihr =>
    simp only [AllProper, List.forall_mem_cons, List.forall_mem_append] at ht
    simp only [Token.isOperator, Bool.and_eq_true, List.contains_iff_mem] at hop
    exact .binary (Level.mem_operators hop.2) (ihl ht.1) (ihr ht.2.2)
  | shorthand hk => exact .shorthand ((ht _ List.mem_cons_self).isName hk)
  | pair hk _ _ ih =>
    simp only [AllProper, List.forall_mem_cons] at ht
    exact .pair (ht.1.isName hk) (ih ht.2.2)
  | object _ _ _ ih =>
    simp only [AllProper, List.forall_mem_cons, List.forall_mem_append] at ht
    exact .object (ih ht.2.1)
  | assign _ _ _ iht ihv =>
    simp only [AllProper, List.forall_mem_cons, List.forall_mem_append] at ht
    exact .assign (iht ht.1) (ihv ht.2.2)

/-- The parameters of a function are read as expressions first. -/
theorem isName_of_parameters {es : List Expr} {ps : List String} {number : Float → Prop}
    (hes : ∀ e ∈ es, e.WellFormed number) (hps : es.map Expr.name? = ps.map some) : ∀ p ∈ ps, IsName p := by
  intro p hp
  have hmem : some p ∈ es.map Expr.name? := hps ▸ List.mem_map_of_mem hp
  obtain ⟨e, he, hn⟩ := List.mem_map.1 hmem
  cases hes e he with
  | name hname =>
    cases hn
    exact hname
  | _ => cases hn

theorem Spells.wellFormed {Ends : List Token → List Token → Prop} {b : Block} (h : Spells Ends b ts)
    (ht : AllProper ts) : b.WellFormed Number.IsNumeral := by
  induction h with
  | undefined _ hn =>
    simp only [AllProper, List.forall_mem_cons] at ht
    exact .undefined (ht.2.1.isName hn)
  | defined _ hn _ hd =>
    simp only [AllProper, List.forall_mem_cons, List.forall_mem_append] at ht
    exact .defined (ht.2.1.isName hn) (hd.wellFormed ht.2.2.2.1)
  | function _ hn _ hd _ hps _ _ _ ih =>
    simp only [AllProper, List.forall_mem_cons, List.forall_mem_append] at ht
    obtain ⟨-, hname, -, hus, -, -, hvs, -⟩ := ht
    exact .function (hname.isName hn) (isName_of_parameters (hd.wellFormed hus) hps) (ih hvs)
  | terminated hd =>
    simp only [AllProper, List.forall_mem_cons, List.forall_mem_append] at ht
    exact .expr (hd.wellFormed ht.1)
  | bare hd => exact .expr (hd.wellFormed ht)
  | nil => exact List.forall_mem_nil _
  | cons _ _ _ ihs ih =>
    rw [AllProper, List.forall_mem_append] at ht
    exact List.forall_mem_cons.2 ⟨ihs ht.1, ih ht.2⟩

end

end Grammar

/-! ## Faults -/

def SyntaxFault.expected? : SyntaxFault → Option String
  | unexpectedToken _ expected | unexpectedEnd expected _ => some expected
  | lexical _ | missingInitializer _ | invalidParameter _ => none

namespace Grammar

theorem expected?_unexpected (stop : Span) (expected : String) (ts : List Token) :
    (unexpected stop expected ts).expected? = some expected := by
  cases ts <;> rfl

/-- Digits are read whatever they are, so a numeral is never missed. -/
theorem Stuck.expected?_ne_numeral {stop : Span} {goal : Goal} {ts : List Token} {f : SyntaxFault}
    (h : Stuck stop goal ts f) (ht : AllProper ts) : f.expected? ≠ some Expected.numeral := by
  have cons {t : Token} {ts : List Token} (h : AllProper (t :: ts)) : AllProper ts := (List.forall_mem_cons.1 h).2
  have append {us ts : List Token} (h : AllProper (us ++ ts)) : AllProper ts := (List.forall_mem_append.1 h).2
  have other {expected : String} {ts : List Token} (h : expected ≠ Expected.numeral) :
      (unexpected stop expected ts).expected? ≠ some Expected.numeral := by
    rw [expected?_unexpected]
    exact fun he => h (Option.some.inj he)
  induction h with
  | @numeral t _ hk hx =>
    rw [Number.read?_of_isDigits ((ht t List.mem_cons_self).isDigits hk)] at hx
    cases hx
  | tighter _ _ _ ih | firstArgument _ _ ih | firstEntry _ _ _ ih | expression _ _ _ _ ih
  | firstStatement _ _ _ ih => exact ih ht
  | grouped _ _ ih | object _ _ ih => exact ih (cons ht)
  | key _ _ _ ih | called _ _ _ ih | nextArgument _ _ _ _ ih | right _ _ _ ih | nextEntry _ _ _ ih
  | assigned _ _ _ ih => exact ih (cons (append ht))
  | entryValue _ _ _ ih => exact ih (cons (cons ht))
  | initial _ _ _ _ ih | parameters _ _ _ _ ih => exact ih (cons (cons (cons ht)))
  | body _ _ _ _ _ _ _ _ ih => exact ih (cons (cons (append (cons (cons (cons ht))))))
  | nextStatement _ _ ih => exact ih (append ht)
  | missingInitializer | invalidParameter => exact nofun
  | objectEnd | bodyEnd => exact fun he => absurd (Option.some.inj he) (by decide)
  | _ => exact other (by decide)

end Grammar

namespace Program

open Grammar

variable {source : String}

theorem ofSource_numerals {p : Program} (h : ofSource source = .ok p) : p.WellFormed Number.IsNumeral := by
  obtain ⟨ts, hts, hp⟩ := ofSource_eq_ok.1 h
  exact hp.wellFormed hts.lossless.proper

theorem ofSource_wellFormed {p : Program} (h : ofSource source = .ok p) : p.WellFormed Number.IsMagnitude :=
  (ofSource_numerals h).imp fun _ _ hx => hx.isMagnitude

theorem ofSource_expected?_ne_numeral {fault : SyntaxFault} (h : ofSource source = .error fault) :
    fault.expected? ≠ some Expected.numeral := by
  rcases ofSource_eq_error.1 h with ⟨lexical, -, rfl⟩ | ⟨ts, hts, hp⟩
  · exact nofun
  · exact (program_eq_error.1 hp).expected?_ne_numeral hts.lossless.proper

end Program

end RavenLang
