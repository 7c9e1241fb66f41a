import RavenLang.Proofs.Grammar.Completion
import RavenLang.Proofs.Grammar.Shapes
import RavenLang.Proofs.Shell.Verdicts

/-!
# Unfinished programs

Where the input ends too early, no bracket is mismatched before, so a text is held back exactly if one is left
open: it is if a closing bracket is missing, or what follows in brackets. A program that is unfinished outside of
all brackets is handed over.
-/

namespace RavenLang

/-- What is expected only where a bracket is open. -/
def Expected.inBrackets : List String :=
  [groupEnd, memberEnd, argumentsEnd, key, keyColon, entryEnd, objectEnd, bodyEnd]

def SyntaxFault.MissesBracket (fault : SyntaxFault) : Prop := ∃ e ∈ Expected.inBrackets, fault.expected? = some e

namespace Grammar

/-! ## What is left open -/

/-- Behind the tokens these brackets are open besides those that were open before. -/
def Opens (os : List Char) (ts : List Token) : Prop := ∀ opened, nest opened ts = some (os ++ opened)

namespace Opens

variable {os : List Char} {us ts : List Token}

theorem nil : Opens [] [] := fun _ => rfl

theorem behind (h : Opens os ts) (hu : Neutral us) : Opens os (us ++ ts) := fun opened => (hu opened ts).trans (h opened)

theorem opening {o : Token} (h : Opens os ts)
    (ho : o.kind = .openParen ∨ o.kind = .openBracket ∨ o.kind = .openBrace) : ∃ c, Opens (os ++ [c]) (o :: ts) := by
  obtain ⟨c, hk, hc⟩ : ∃ c, o.kind.bracket? = some c ∧ Shell.isOpening c = true := by
    rcases ho with ho | ho | ho <;> exact ⟨_, congrArg TokenKind.bracket? ho, rfl⟩
  refine ⟨c, fun opened => ?_⟩
  rw [nest_opening hk hc, h, List.append_assoc, List.singleton_append]

end Opens

/-- What is read behind an opening bracket. -/
def Goal.inBrackets : Goal → Bool
  | .arguments | .entry | .entries | .statements true => true
  | .expr _ | .statement | .statements false => false

/-- If a bracket is missed, one is open behind the tokens, or before them. -/
def LeftOpen (goal : Goal) (ts : List Token) (fault : SyntaxFault) : Prop :=
  ∃ os, Opens os ts ∧ (fault.MissesBracket → goal.inBrackets = true ∨ os ≠ [])

namespace LeftOpen

variable {goal goal' : Goal} {us ts : List Token} {fault : SyntaxFault}

theorem behind (h : LeftOpen goal ts fault) (hu : Neutral us)
    (hg : goal.inBrackets = true → goal'.inBrackets = true) : LeftOpen goal' (us ++ ts) fault := by
  obtain ⟨os, ho, hm⟩ := h
  exact ⟨os, ho.behind hu, fun hf => (hm hf).imp_left hg⟩

theorem cons (h : LeftOpen goal ts fault) {t : Token} (ht : t.kind.bracket? = none)
    (hg : goal.inBrackets = true → goal'.inBrackets = true) : LeftOpen goal' (t :: ts) fault :=
  h.behind (.cons ht .nil) hg

theorem opening (h : LeftOpen goal ts fault) {o : Token}
    (ho : o.kind = .openParen ∨ o.kind = .openBracket ∨ o.kind = .openBrace) (goal' : Goal) :
    LeftOpen goal' (o :: ts) fault := by
  obtain ⟨os, hos, -⟩ := h
  obtain ⟨c, hc⟩ := hos.opening ho
  exact ⟨os ++ [c], hc, fun _ => .inr (by simp)⟩

/-- The input ends behind whole phrases. -/
theorem ended (hu : Neutral us) (hg : fault.MissesBracket → goal.inBrackets = true) : LeftOpen goal us fault :=
  ⟨[], by simpa using Opens.nil.behind hu, fun hf => .inl (hg hf)⟩

theorem enclosed {o : Token} (ho : o.kind = .openParen ∨ o.kind = .openBracket ∨ o.kind = .openBrace)
    (hu : Neutral us) (goal : Goal) : LeftOpen goal (o :: us) fault :=
  have hinside : LeftOpen .arguments us fault := .ended hu fun _ => rfl
  hinside.opening ho goal

end LeftOpen

theorem Stuck.leftOpen {stop : Span} {goal : Goal} {ts : List Token} {f : SyntaxFault} (h : Stuck stop goal ts f)
    (hi : f.isIncomplete = true) : LeftOpen goal ts f := by
  have outside {expected : String} {P : Prop} (he : expected ∉ Expected.inBrackets) :
      (unexpected stop expected []).MissesBracket → P := by
    rintro ⟨e, hm, h⟩
    cases h
    exact absurd hm he
  have word {t : Token} {kind : TokenKind} (hk : t.kind = kind) (hn : kind.bracket? = none) :
      t.kind.bracket? = none := hk ▸ hn
  have declares {t : Token} (hk : t.kind = .letWord ∨ t.kind = .constWord) : t.kind.bracket? = none :=
    hk.elim (word · rfl) (word · rfl)
  induction h with
  | tighter _ _ _ ih => exact (ih hi).behind .nil nofun
  | operand =>
    obtain rfl := isIncomplete_unexpected.1 hi
    exact .ended .nil (outside (by decide))
  | numeral | missingInitializer | invalidParameter => cases hi
  | grouped ho _ ih | object ho _ ih => exact (ih hi).opening (by simp [ho]) _
  | groupEnd ho hw =>
    obtain rfl := isIncomplete_unexpected.1 hi
    exact .enclosed (.inl ho) (hw.1.neutral.append .nil) _
  | propertyName hd hdot =>
    obtain rfl := isIncomplete_unexpected.1 hi
    exact .ended (hd.neutral.append (.cons (word hdot rfl) .nil)) (outside (by decide))
  | key hd ho _ ih | called hd ho _ ih => exact ((ih hi).opening (by simp [ho]) _).behind hd.neutral id
  | memberEnd hd ho hw =>
    obtain rfl := isIncomplete_unexpected.1 hi
    exact (LeftOpen.enclosed (.inr (.inl ho)) (hw.1.neutral.append .nil) (.expr .postfixed)).behind hd.neutral id
  | firstArgument _ _ ih => exact (ih hi).behind .nil fun _ => rfl
  | nextArgument _ hd hc _ ih => exact ((ih hi).cons (word hc rfl) id).behind hd.neutral fun _ => rfl
  | argumentsEnd _ hd =>
    obtain rfl := isIncomplete_unexpected.1 hi
    exact .ended (hd.neutral.append .nil) fun _ => rfl
  | right hd hop _ ih => exact ((ih hi).cons (bracket?_of_isOperator hop) id).behind hd.neutral nofun
  | objectEnd | bodyEnd => exact .ended .nil fun _ => rfl
  | firstEntry _ _ _ ih => exact (ih hi).behind .nil id
  | nextEntry hd hc _ ih => exact ((ih hi).cons (word hc rfl) id).behind hd.neutral id
  | entryKey =>
    obtain rfl := isIncomplete_unexpected.1 hi
    exact .ended .nil fun _ => rfl
  | keyColon hk =>
    obtain rfl := isIncomplete_unexpected.1 hi
    exact .ended (.cons (word hk rfl) .nil) fun _ => rfl
  | entryValue hk hc _ ih => exact ((ih hi).cons (word hc rfl) id).cons (word hk rfl) nofun
  | entryEnd hk hc hw =>
    obtain rfl := isIncomplete_unexpected.1 hi
    exact .ended (.cons (word hk rfl) (.cons (word hc rfl) (hw.1.neutral.append .nil))) fun _ => rfl
  | assigned hd hq _ ih => exact ((ih hi).cons (word hq rfl) id).behind hd.neutral nofun
  | variableName hk =>
    obtain rfl := isIncomplete_unexpected.1 hi
    exact .ended (.cons (declares hk) .nil) (outside (by decide))
  | initializer hk hn =>
    obtain rfl := isIncomplete_unexpected.1 hi
    exact .ended (.cons (declares hk) (.cons (word hn rfl) .nil)) (outside (by decide))
  | initial hk hn hq _ ih =>
    exact (((ih hi).cons (word hq rfl) id).cons (word hn rfl) id).cons (declares hk) nofun
  | declarationEnd hk hn hq hw =>
    obtain rfl := isIncomplete_unexpected.1 hi
    exact .ended (.cons (declares hk) (.cons (word hn rfl) (.cons (word hq rfl) (hw.1.neutral.append .nil))))
      (outside (by decide))
  | functionName hk =>
    obtain rfl := isIncomplete_unexpected.1 hi
    exact .ended (.cons (word hk rfl) .nil) (outside (by decide))
  | parametersStart hk hn =>
    obtain rfl := isIncomplete_unexpected.1 hi
    exact .ended (.cons (word hk rfl) (.cons (word hn rfl) .nil)) (outside (by decide))
  | parameters hk hn ho _ ih =>
    exact (((ih hi).opening (.inl ho) .statement).cons (word hn rfl) id).cons (word hk rfl) id
  | bodyStart hk hn ho hd hc =>
    obtain rfl := isIncomplete_unexpected.1 hi
    exact .ended (.cons (word hk rfl) (.cons (word hn rfl) (hd.neutral.parens ho hc))) (outside (by decide))
  | body hk hn ho hd hc _ hs _ ih =>
    have hbody := ((ih hi).opening (.inr (.inr hs)) .statement).behind (hd.neutral.parens ho hc) id
    simpa using (hbody.cons (word hn rfl) id).cons (word hk rfl) id
  | expression _ _ _ _ ih => exact (ih hi).behind .nil nofun
  | firstStatement _ _ _ ih => exact (ih hi).behind .nil nofun
  | nextStatement hs _ ih =>
    obtain ⟨_, hs, -⟩ := hs
    exact (ih hi).behind hs.neutral id

end Grammar

namespace Shell

open Grammar

variable {source : String} {fault : SyntaxFault}

/-! ## The verdict -/

/-- If more input is expected, the text is held back exactly if a bracket is open at its end. One is where a
bracket is missed. -/
theorem judge_of_isIncomplete (h : Program.ofSource source = .error fault) (hi : fault.isIncomplete = true)
    (hb : ∀ b ∈ blockComments source.toList, isPassedOver b.1 b.2 = true) :
    ∃ ts, tokenize source = .ok ts ∧
      (judge source.toList = .incomplete ↔ ¬ Balanced isPair (brackets ts)) ∧
      (judge source.toList = .complete ↔ Balanced isPair (brackets ts)) ∧
      (fault.MissesBracket → judge source.toList = .incomplete) := by
  rcases Program.ofSource_eq_error.1 h with ⟨lexical, -, rfl⟩ | ⟨ts, hts, hp⟩
  · cases hi
  obtain ⟨os, hos, hm⟩ := (program_eq_error.1 hp).leftOpen hi
  have hopen := hos []
  rw [List.append_nil] at hopen
  have hj : judge source.toList = if os = [] then .complete else .incomplete := judgeFrom_scanned hts hb hopen
  have hbalanced : Balanced isPair (brackets (ts ++ [.endAt (0 + Text.size source.toList)])) ↔ os = [] := by
    rw [balanced_iff, nest_append, hopen, Option.bind_some, nest_plain rfl, nest, Option.some.injEq]
  refine ⟨_, hts.scan, ?_, ?_, fun hf => ?_⟩
  · rw [hj, hbalanced]
    split <;> simp_all
  · rw [hj, hbalanced]
    split <;> simp_all
  · rw [hj, if_neg ((hm hf).resolve_left Bool.false_ne_true)]

/-- An operand is missing in an open call and behind a closed one, and a brace behind a comment. -/
theorem judge_of_isIncomplete_call :
    let inside := "fn f(a) \x7b g(/* [] */ \"(\" +"
    let outside := "f(\"(\") +"
    let object := "x = \x7b a: 1 // \x7d"
    (∃ fault ts, Program.ofSource inside = .error fault ∧ fault.isIncomplete = true ∧ tokenize inside = .ok ts ∧
      judge inside.toList = .incomplete ∧ ¬ Balanced isPair (brackets ts)) ∧
    (∃ fault ts, Program.ofSource outside = .error fault ∧ fault.isIncomplete = true ∧ tokenize outside = .ok ts ∧
      judge outside.toList = .complete ∧ Balanced isPair (brackets ts)) ∧
    ∃ fault, Program.ofSource object = .error fault ∧ fault.isIncomplete = true ∧ fault.MissesBracket ∧
      judge object.toList = .incomplete := by
  intro inside outside object
  obtain ⟨fault, h, hi⟩ : ∃ fault, Program.ofSource inside = .error fault ∧ fault.isIncomplete = true := by
    rw [Program.ofSource_eq]
    decide +kernel
  obtain ⟨fault', h', hi'⟩ : ∃ fault, Program.ofSource outside = .error fault ∧ fault.isIncomplete = true := by
    rw [Program.ofSource_eq]
    decide +kernel
  obtain ⟨fault'', h'', hi'', he⟩ : ∃ fault, Program.ofSource object = .error fault ∧ fault.isIncomplete = true ∧
      fault.expected? = some Expected.entryEnd := by
    rw [Program.ofSource_eq]
    decide +kernel
  obtain ⟨ts, hts, hheld, -, -⟩ := judge_of_isIncomplete h hi (by decide +kernel)
  obtain ⟨ts', hts', -, hover, -⟩ := judge_of_isIncomplete h' hi' (by decide +kernel)
  obtain ⟨-, -, -, -, hmissed⟩ := judge_of_isIncomplete h'' hi'' (by decide +kernel)
  have hinside : judge inside.toList = .incomplete := by decide +kernel
  have houtside : judge outside.toList = .complete := by decide +kernel
  have hmisses : fault''.MissesBracket := ⟨_, by decide, he⟩
  exact ⟨⟨fault, ts, h, hi, hts, hinside, hheld.1 hinside⟩, ⟨fault', ts', h', hi', hts', houtside, hover.1 houtside⟩,
    fault'', h'', hi'', hmisses, hmissed hmisses⟩

/-- Outside of all brackets every kind of phrase is handed over before it is finished. -/
theorem judge_unfinished :
    (∀ source ∈ ["1 +", "o.", "x =", "let", "let x", "let x =", "let x = 1", "const c = 1", "fn", "fn f", "fn f(a)"],
      ∃ fault, Program.ofSource source = .error fault ∧ fault.isIncomplete = true ∧
        judge source.toList = .complete) ∧
      readInputs "let x = 1\n" = ⟨[⟨"", "let x = 1".toList⟩], ""⟩ := by
  simp only [Program.ofSource_eq]
  exact ⟨by decide +kernel, by decide +kernel⟩

end Shell

end RavenLang
