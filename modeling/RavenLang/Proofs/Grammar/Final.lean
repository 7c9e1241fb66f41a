import RavenLang.Proofs.Grammar.Completion

/-!
# Faults that no further line mends

A fault other than an early end is final, unless a string or a comment is not closed. Whether such a
text goes on to a program is seen by closing it.
-/

namespace RavenLang

/-! ## Tokens that begin a program -/

namespace Grammar

variable {stop : Span} {ts us : List Token} {p : Program}

theorem Stuck.not_spells {f : SyntaxFault} (h : Stuck stop (.statements false) ts f) :
    ¬ Spells Level.assignment.Stops (.statements p) ts := by
  intro hp
  have hok : program stop ts = .ok p := program_eq_ok.2 hp
  rw [program_eq_error.2 h] at hok
  cases hok

theorem Spells.viable (h : Spells Level.assignment.Stops (.statements p) (ts ++ us)) (stop : Span) :
    Viable ts (program stop ts) := by
  cases hp : program stop ts with
  | ok q => trivial
  | error fault =>
    refine ⟨?_, h.plainParameters⟩
    by_contra hi
    have hst := (program_eq_error.1 hp).final (Bool.eq_false_of_not_eq_true hi) stop us
    exact hst.not_spells h

/-- A fault at the last token or before it is raised too if the token is exchanged and others follow. -/
theorem Stuck.exchange {goal : Goal} {q q' : Token} {f : SyntaxFault} (h : Stuck stop goal (ts ++ [q]) f)
    (hi : f.isIncomplete = false) (hq : Interchangeable q q') (stop' : Span) (us : List Token) :
    ∃ g, Stuck stop' goal (ts ++ q' :: us) g := by
  obtain ⟨before, t, after, he, -, hraised⟩ := h.raised hi
  rcases append_eq_append_cons he with ⟨ws, rfl, -⟩ | ⟨ws, rfl, hws⟩
  · obtain ⟨g, hg, -⟩ := hraised stop' t (ws ++ q' :: us) (.refl t)
    exact ⟨g, by simpa using hg⟩
  · cases ws with
    | nil =>
      obtain ⟨rfl, rfl⟩ := List.cons.inj hws
      obtain ⟨g, hg, -⟩ := hraised stop' q' us hq
      exact ⟨g, by simpa using hg⟩
    | cons w ws => simp at hws

/-- A string is as good as another. -/
theorem Spells.viable_string {q q' : Token} (hq : q.kind = .string) (hq' : q'.kind = .string)
    (h : Spells Level.assignment.Stops (.statements p) (ts ++ q' :: us)) (stop : Span) :
    Viable (ts ++ [q]) (program stop (ts ++ [q])) := by
  cases hp : program stop (ts ++ [q]) with
  | ok q => trivial
  | error fault =>
    have hplain : PlainParameters (ts ++ [q']) := @Spells.plainParameters _ _ _ us (by simpa using h)
    refine ⟨?_, hplain.congr (by simp [hq, hq'])⟩
    by_contra hi
    have hqq' : Interchangeable q q' := ⟨hq'.trans hq.symm, by simp [hq]⟩
    obtain ⟨g, hg⟩ := (program_eq_error.1 hp).exchange (Bool.eq_false_of_not_eq_true hi) hqq' stop us
    exact hg.not_spells h

end Grammar

/-! ## Texts -/

open Grammar

namespace Program

variable {source : String} {ts : List Token}

/-- The text is a program, or lines are missing at its end and those that are there can stay. -/
def Viable (source : String) : Prop :=
  match tokenize source with
  | .error _ => False
  | .ok ts => Grammar.Viable (Token.beforeEnd ts) (ofTokens ts)

instance (source : String) : Decidable (Viable source) :=
  match h : tokenize source with
  | .error _ => isFalse (by simp [Viable, h])
  | .ok ts =>
    decidable_of_iff (Grammar.Viable (Token.beforeEnd ts) (program (Token.endSpan ts) (Token.beforeEnd ts)))
      (by simp [Viable, h, ofTokens_eq])

theorem viable_of_scanned (h : Scanned 0 source.toList ts) :
    Viable source ↔ Grammar.Viable ts (program (.point (Text.size source.toList)) ts) := by
  have hend : ∀ t ∈ ts, t.kind ≠ .endOfInput := fun t ht => h.ne_endOfInput ht
  rw [Viable, tokenize, h.scan]
  simp only [ofTokens_eq, Token.beforeEnd_append_endAt hend, Token.endSpan_append_endAt hend, Nat.zero_add]

theorem Viable.exists_lines (h : Viable source) :
    ∃ (more : String) (p : Program), ofSource (source ++ "\n" ++ more) = .ok p := by
  cases ht : tokenize source with
  | error fault =>
    rw [Viable, ht] at h
    exact h.elim
  | ok us =>
    obtain ⟨ts, -, hs⟩ := Scanned.of_scan ht
    exact Program.exists_lines hs ((viable_of_scanned hs).1 h).completable

end Program

/-! ## What is not closed -/

def LexicalCause.closing? : LexicalCause → Option String
  | unterminatedString => some "\""
  | unterminatedComment => some "*/"
  | _ => none

/-- What closes the string or the comment that is at fault. -/
def SyntaxFault.closing? : SyntaxFault → Option String
  | lexical fault => fault.cause.closing?
  | _ => none

/-- If the rest can be cut with another line behind it, then also with nothing but what closes it. -/
theorem Uncut.exists_closing {cause : LexicalCause} {rest more : List Char} {o : Nat} {ts us : List Token} {p : Program}
    (h : Uncut rest cause) (hus : Scanned o (rest ++ '\n' :: more) us)
    (hp : Spells Level.assignment.Stops (.statements p) (ts ++ us)) :
    ∃ closing vs, cause.closing? = some closing ∧ Scanned o (rest ++ '\n' :: closing.toList) vs ∧
      ∀ stop, Grammar.Viable (ts ++ vs) (program stop (ts ++ vs)) := by
  cases h with
  | @string cs hq =>
    have hinside : '"' ∉ cs ++ ['\n'] := by simp [hq]
    have hclosed := Scanned.token (o := o) (@Cut.string _ [] hinside) .nil
    obtain ⟨q, us, rfl, hk⟩ := hus.head_string
    exact ⟨_, _, rfl, by simpa using hclosed, hp.viable_string rfl hk⟩
  | @comment cs hc =>
    have hinside : ¬ ['*', '/'] <:+: cs ++ ['\n'] := by
      rw [List.infix_concat_iff, not_or]
      exact ⟨by simp [List.suffix_concat_iff, List.cons_eq_append_iff], hc⟩
    have hclosed := Scanned.trivia (o := o) (@Cut.block _ [] hinside) .nil
    refine ⟨_, [], rfl, by simpa using hclosed, fun stop => ?_⟩
    rw [List.append_nil]
    exact hp.viable stop
  | character hw ha hq hm => exact absurd hus (Scanned.not_invalid (@Uncut.character _ [] hw ha hq hm) _)

/-- A fault other than an early end is mended by further lines exactly if it is a string or a comment that is
not closed, and the text begins a program when it is closed. -/
theorem Program.ofSource_final {source : String} {fault : SyntaxFault} (h : ofSource source = .error fault)
    (hi : fault.isIncomplete = false) :
    (∃ (more : String) (p : Program), ofSource (source ++ "\n" ++ more) = .ok p) ↔
      ∃ closing, fault.closing? = some closing ∧ Viable (source ++ "\n" ++ closing) := by
  constructor
  · intro hmore
    obtain ⟨more, p, hok⟩ := hmore
    obtain ⟨vs, hvs, hp⟩ := ofSource_eq_ok.1 hok
    rw [Text.toList_lines] at hvs
    rcases ofSource_eq_error.1 h with ⟨lexical, hl, rfl⟩ | ⟨ts, hts, hst⟩
    · obtain ⟨before, rest, ts, -, hu, hscan⟩ := Token.scan_eq_error hl
      obtain ⟨us, rfl, hus⟩ := (Scanned.iff_of_scan (hscan _)).1 hvs
      obtain ⟨closing, vs, hclosing, hclosed, hviable⟩ := hu.exists_closing hus hp
      have hts : Scanned 0 (source ++ "\n" ++ closing).toList (ts ++ vs) := by
        rw [Text.toList_lines]
        exact (Scanned.iff_of_scan (hscan _)).2 ⟨vs, rfl, hclosed⟩
      exact ⟨closing, hclosing, (viable_of_scanned hts).2 (hviable _)⟩
    · obtain ⟨us, rfl, -⟩ := hts.lines_iff.1 hvs
      exact absurd hp ((program_eq_error.1 hst).final hi default us).not_spells
  · intro hclosed
    obtain ⟨closing, -, hviable⟩ := hclosed
    obtain ⟨more, p, hok⟩ := hviable.exists_lines
    refine ⟨closing ++ "\n" ++ more, p, ?_⟩
    rw [← hok]
    simp only [String.append_assoc]

/-- A comment that is closed leaves a list of arguments to go on with, but a string stands behind a parenthesis
that closes nothing. -/
theorem Program.ofSource_final_open :
    (∃ fault, ofSource "f(1, /* 2" = .error fault ∧ fault.isIncomplete = false ∧
      ∃ (more : String) (p : Program), ofSource ("f(1, /* 2" ++ "\n" ++ more) = .ok p) ∧
    ∃ fault, ofSource ") \"" = .error fault ∧ fault.isIncomplete = false ∧
      ¬ ∃ (more : String) (p : Program), ofSource (") \"" ++ "\n" ++ more) = .ok p := by
  have hcheck (source closing : String) (viable : Bool) (h : (match ofSource source with
      | .error fault => !fault.isIncomplete && decide (fault.closing? = some closing) &&
        decide (decide (Viable (source ++ "\n" ++ closing)) = viable)
      | .ok _ => false) = true) :
      ∃ fault, ofSource source = .error fault ∧ fault.isIncomplete = false ∧ fault.closing? = some closing ∧
        decide (Viable (source ++ "\n" ++ closing)) = viable := by
    split at h
    · next fault hf =>
      simp only [Bool.and_eq_true, Bool.not_eq_true', decide_eq_true_eq] at h
      exact ⟨fault, hf, h.1.1, h.1.2, h.2⟩
    · cases h
  constructor
  · obtain ⟨fault, hf, hi, hc, hv⟩ := hcheck "f(1, /* 2" "*/" true (by rw [ofSource_eq]; decide +kernel)
    exact ⟨fault, hf, hi, (ofSource_final hf hi).2 ⟨_, hc, of_decide_eq_true hv⟩⟩
  · obtain ⟨fault, hf, hi, hc, hv⟩ := hcheck ") \"" "\"" false (by rw [ofSource_eq]; decide +kernel)
    refine ⟨fault, hf, hi, fun h => ?_⟩
    obtain ⟨closing, hclosing, hviable⟩ := (ofSource_final hf hi).1 h
    obtain rfl := Option.some.inj (hc.symm.trans hclosing)
    exact of_decide_eq_false hv hviable

/-- A fault can be told from an early end and yet be mended: the next line closes the string. -/
theorem Program.ofSource_open_string :
    (∃ fault, ofSource "\"" = .error fault ∧ fault.isIncomplete = false) ∧
      ∃ p, ofSource ("\"" ++ "\n" ++ "\"") = .ok p := by
  constructor
  · have hcheck : (match ofSource "\"" with
        | .error fault => !fault.isIncomplete
        | .ok _ => false) = true := by
      rw [ofSource_eq]
      decide +kernel
    split at hcheck
    · next fault hf => exact ⟨fault, hf, by simpa using hcheck⟩
    · cases hcheck
  · have hcheck : (match ofSource ("\"" ++ "\n" ++ "\"") with
        | .error _ => false
        | .ok _ => true) = true := by
      rw [ofSource_eq]
      decide +kernel
    split at hcheck
    · cases hcheck
    · next p hp => exact ⟨p, hp⟩

end RavenLang
