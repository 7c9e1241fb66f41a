import RavenLang.Proofs.Grammar.Rejected
import RavenLang.Proofs.Grammar.Texts
import RavenLang.Proofs.Syntax.Places

/-!
# Places that are read

Every node of a program and every syntax fault has its place in the text that is read.
-/

namespace RavenLang

namespace Grammar

/-! ## Trees -/

def Form.spans : Form → List Span
  | .expr _ e => e.spans
  | .arguments es => Expr.spansAll es
  | .entry e => e.spans
  | .entries es => Entry.spansAll es

def Block.spans : Block → List Span
  | .statement _ s => s.spans
  | .statements ss => Stmt.spansAll ss

section
variable {P : Span → Prop} (hm : ∀ {a b}, P a → P b → P (a.merge b))
include hm

/-- Nodes cover tokens, so what holds of the places of the tokens holds of theirs. -/
theorem Derives.places {f : Form} {ts : List Token} (h : Derives f ts) (ht : ∀ t ∈ ts, P t.span) :
    ∀ s ∈ f.spans, P s := by
  have node {s : Span} {us vs : List Span} (hs : P s) (hu : ∀ s ∈ us, P s) (hv : ∀ s ∈ vs, P s) :
      ∀ t ∈ s :: (us ++ vs), P t :=
    List.forall_mem_cons.2 ⟨hs, List.forall_mem_append.2 ⟨hu, hv⟩⟩
  induction h with
  | name | string | number | shorthand => exact List.forall_mem_singleton.2 (ht _ List.mem_cons_self)
  | group _ _ _ ih =>
    simp only [List.forall_mem_cons, List.forall_mem_append] at ht
    intro s hs
    rcases Expr.mem_spans_withSpan hs with rfl | hs
    · exact hm ht.1 ht.2.2.1
    · exact ih ht.2.1 s hs
  | tighter _ _ ih => exact ih ht
  | @field e _ _ _ _ _ _ ih =>
    simp only [List.forall_mem_cons, List.forall_mem_append] at ht
    have he := ih ht.1
    exact node (hm (he _ e.span_mem_spans) ht.2.2.1) he (List.forall_mem_singleton.2 ht.2.2.1)
  | @index e _ _ key _ _ _ _ _ _ ih ihk =>
    simp only [List.forall_mem_cons, List.forall_mem_append] at ht
    have he := ih ht.1
    exact node (hm (he _ e.span_mem_spans) ht.2.2.2.1) he (ihk ht.2.2.1)
  | @call e _ _ es _ _ _ _ _ _ ih iha =>
    simp only [List.forall_mem_cons, List.forall_mem_append] at ht
    have he := ih ht.1
    exact node (hm (he _ e.span_mem_spans) (hm ht.2.1 ht.2.2.2.1)) he (iha ht.2.2.1)
  | noArguments | noEntries => exact List.forall_mem_nil _
  | argument _ ih | lastEntry _ ih => exact List.forall_mem_append.2 ⟨ih ht, List.forall_mem_nil _⟩
  | nextArgument _ _ _ ih ihs | nextEntry _ _ _ ih ihs =>
    simp only [List.forall_mem_cons, List.forall_mem_append] at ht
    exact List.forall_mem_append.2 ⟨ih ht.1, ihs ht.2.2⟩
  | @binary _ left _ _ right _ _ _ _ ihl ihr =>
    simp only [List.forall_mem_cons, List.forall_mem_append] at ht
    have hl := ihl ht.1
    have hr := ihr ht.2.2
    exact node (hm (hl _ left.span_mem_spans) (hr _ right.span_mem_spans)) hl hr
  | @pair _ _ e _ _ _ _ ih =>
    simp only [List.forall_mem_cons] at ht
    have he := ih ht.2.2
    exact List.forall_mem_cons.2 ⟨hm ht.1 (he _ e.span_mem_spans), he⟩
  | object _ _ _ ih =>
    simp only [List.forall_mem_cons, List.forall_mem_append] at ht
    exact List.forall_mem_cons.2 ⟨hm ht.1 ht.2.2.1, ih ht.2.1⟩
  | @assign target _ _ value _ _ _ _ iht ihv =>
    simp only [List.forall_mem_cons, List.forall_mem_append] at ht
    have htarget := iht ht.1
    have hvalue := ihv ht.2.2
    exact node (hm (htarget _ target.span_mem_spans) (hvalue _ value.span_mem_spans)) htarget hvalue

theorem Spells.places {Ends : List Token → List Token → Prop} {b : Block} {ts : List Token} (h : Spells Ends b ts)
    (ht : ∀ t ∈ ts, P t.span) : ∀ s ∈ b.spans, P s := by
  induction h with
  | undefined =>
    simp only [List.forall_mem_cons] at ht
    exact List.forall_mem_singleton.2 (hm ht.1 ht.2.2.1)
  | defined _ _ _ hd =>
    simp only [List.forall_mem_cons, List.forall_mem_append] at ht
    exact List.forall_mem_cons.2 ⟨hm ht.1 ht.2.2.2.2.1, hd.places hm ht.2.2.2.1⟩
  | function _ _ _ _ _ _ _ _ _ ih =>
    simp only [List.forall_mem_cons, List.forall_mem_append] at ht
    exact List.forall_mem_cons.2 ⟨hm ht.1 ht.2.2.2.2.2.2.2.1, ih ht.2.2.2.2.2.2.1⟩
  | @terminated e _ _ hd =>
    simp only [List.forall_mem_cons, List.forall_mem_append] at ht
    have he := hd.places hm ht.1
    exact List.forall_mem_cons.2 ⟨hm (he _ e.span_mem_spans) ht.2.1, he⟩
  | @bare e _ hd =>
    have he := hd.places hm ht
    exact List.forall_mem_cons.2 ⟨he _ e.span_mem_spans, he⟩
  | nil => exact List.forall_mem_nil _
  | cons _ _ _ ihs ih =>
    rw [List.forall_mem_append] at ht
    exact List.forall_mem_append.2 ⟨ihs ht.1, ih ht.2⟩

/-! ## Faults -/

omit hm in
theorem unexpected_place {stop : Span} (hs : P stop) {expected : String} {ts : List Token}
    (ht : ∀ t ∈ ts, P t.span) : P (unexpected stop expected ts).span := by
  cases ts with
  | nil => exact hs
  | cons t ts => exact ht t List.mem_cons_self

theorem Stuck.place {stop : Span} (hs : P stop) {goal : Goal} {ts : List Token} {f : SyntaxFault}
    (h : Stuck stop goal ts f) (ht : ∀ t ∈ ts, P t.span) : P f.span := by
  have cons {t : Token} {ts : List Token} (h : ∀ u ∈ t :: ts, P u.span) : ∀ u ∈ ts, P u.span :=
    (List.forall_mem_cons.1 h).2
  have append {us ts : List Token} (h : ∀ u ∈ us ++ ts, P u.span) : ∀ u ∈ ts, P u.span :=
    (List.forall_mem_append.1 h).2
  induction h with
  | tighter _ _ _ ih | firstArgument _ _ ih | firstEntry _ _ _ ih | expression _ _ _ _ ih
  | firstStatement _ _ _ ih => exact ih ht
  | operand | entryKey => exact unexpected_place hs ht
  | numeral => exact ht _ List.mem_cons_self
  | grouped _ _ ih | object _ _ ih => exact ih (cons ht)
  | groupEnd => exact unexpected_place hs (append (cons ht))
  | propertyName => exact unexpected_place hs (cons (append ht))
  | key _ _ _ ih | called _ _ _ ih | nextArgument _ _ _ _ ih | right _ _ _ ih | nextEntry _ _ _ ih
  | assigned _ _ _ ih => exact ih (cons (append ht))
  | memberEnd => exact unexpected_place hs (append (cons (append ht)))
  | argumentsEnd => exact unexpected_place hs (append ht)
  | objectEnd | bodyEnd => exact hs
  | keyColon | variableName | functionName => exact unexpected_place hs (cons ht)
  | entryValue _ _ _ ih => exact ih (cons (cons ht))
  | entryEnd => exact unexpected_place hs (append (cons (cons ht)))
  | missingInitializer =>
    simp only [List.forall_mem_cons] at ht
    exact hm ht.1 ht.2.2.1
  | initializer | parametersStart => exact unexpected_place hs (cons (cons ht))
  | initial _ _ _ _ ih | parameters _ _ _ _ ih => exact ih (cons (cons (cons ht)))
  | declarationEnd => exact unexpected_place hs (append (cons (cons (cons ht))))
  | @invalidParameter _ _ _ es _ _ e _ _ _ _ hd _ he =>
    have hes := hd.places hm (List.forall_mem_append.1 (cons (cons (cons ht)))).1
    exact hes _ (Expr.mem_spansAll (List.mem_of_find?_eq_some he) e.span_mem_spans)
  | bodyStart => exact unexpected_place hs (cons (append (cons (cons (cons ht)))))
  | body _ _ _ _ _ _ _ _ ih => exact ih (cons (cons (append (cons (cons (cons ht))))))
  | nextStatement _ _ ih => exact ih (append ht)

end

end Grammar

/-! ## Texts -/

theorem Scanned.places {o : Nat} {cs : List Char} {ts : List Token} (h : Scanned o cs ts) :
    ∀ t ∈ ts, t.span.Within (o + Text.size cs) := by
  induction h with
  | nil => exact List.forall_mem_nil _
  | trivia _ _ ih => simpa only [Text.size_append, Nat.add_assoc] using ih
  | token _ _ ih =>
    rw [Text.size_append, ← Nat.add_assoc]
    exact List.forall_mem_cons.2 ⟨⟨Nat.le_add_right _ _, Nat.le_add_right _ _⟩, ih⟩

/-- A lexical fault covers characters that are there. -/
theorem Lexeme.extent_le {c : Char} {cs : List Char} {cause : LexicalCause} (h : next c cs = .error cause) :
    cause.extent (c :: cs) ≤ Text.size (c :: cs) := by
  unfold next at h
  split at h
  · cases h
  · rw [comment] at h
    split at h <;> cases h
    exact Nat.le_refl _
  · rw [string] at h
    split at h <;> cases h
    exact Nat.le_refl _
  · split_ifs at h
    rw [mark] at h
    split at h <;> cases h
    exact Nat.le_add_right _ _

theorem Token.scan_fault_place {o : Nat} {cs : List Char} {fault : LexicalFault}
    (h : scan o cs = .error fault) : fault.span.Within (o + Text.size cs) := by
  fun_induction scan o cs with
  | case1 => cases h
  | case2 o c cs cause hl =>
    cases h
    exact ⟨Nat.le_add_right _ _, Nat.add_le_add_left (Lexeme.extent_le hl) o⟩
  | case3 o c cs l hl hlt stop hk ih =>
    have hsize := congrArg Text.size l.taken_append_rest
    rw [Text.size_append] at hsize
    rw [← hsize, ← Nat.add_assoc]
    exact ih h
  | case4 o c cs l hl hlt stop kind hk ih =>
    have hsize := congrArg Text.size l.taken_append_rest
    rw [Text.size_append] at hsize
    rw [← hsize, ← Nat.add_assoc]
    cases hr : scan stop l.rest with
    | error e =>
      rw [hr] at h
      cases h
      exact ih hr
    | ok ts =>
      rw [hr] at h
      cases h

namespace Program

open Grammar

variable {source : String}

theorem ofSource_places {p : Program} (h : ofSource source = .ok p) :
    ∀ s ∈ p.spans, s.Within (Text.size source.toList) := by
  obtain ⟨ts, hts, hp⟩ := ofSource_eq_ok.1 h
  have hplaces := hts.places
  rw [Nat.zero_add] at hplaces
  exact hp.places Span.Within.merge hplaces

theorem ofSource_fault_place {fault : SyntaxFault} (h : ofSource source = .error fault) :
    fault.span.Within (Text.size source.toList) := by
  rcases ofSource_eq_error.1 h with ⟨lexical, hl, rfl⟩ | ⟨ts, hts, hp⟩
  · have hplace := Token.scan_fault_place hl
    rwa [Nat.zero_add] at hplace
  · have hplaces := hts.places
    rw [Nat.zero_add] at hplaces
    exact (program_eq_error.1 hp).place (P := (·.Within _)) .merge (Span.within_point (Nat.le_refl _)) hplaces

end Program

end RavenLang
