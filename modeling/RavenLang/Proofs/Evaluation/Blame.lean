import RavenLang.Proofs.Evaluation.Failures
import RavenLang.Proofs.Evaluation.Operators
import RavenLang.Proofs.Grammar.Offence
import RavenLang.Proofs.Token.LongestMatch

/-!
# What is to blame

A text that is no program is blamed at its end if it ends too early, and else at characters that are there.
A program that stops is blamed at the node that cannot be evaluated, in the body of whichever function it is.
-/

namespace RavenLang

open Text (size Boundary)

/-! ## Texts that are no programs -/

theorem StopsAt.start_lt_stop {before rest : List Char} {fault : LexicalFault} (h : StopsAt before rest fault) :
    fault.span.start < fault.span.stop := by
  have size_pos (c : Char) (cs : List Char) : size before < size (before ++ c :: cs) := by
    have := c.utf8Size_pos
    rw [Text.size_append, Text.size_cons]
    omega
  cases h with
  | string | comment => exact size_pos _ _
  | @character c => exact Nat.lt_add_of_pos_right c.utf8Size_pos

namespace Grammar

/-- Where a text ends too early is its end. -/
theorem Stuck.span_eq_stop {stop : Span} {goal : Goal} {ts : List Token} {f : SyntaxFault}
    (h : Stuck stop goal ts f) (hi : f.isIncomplete = true) : f.span = stop := by
  have hself := h.endingAt_self
  cases f with
  | unexpectedEnd expected span =>
    cases hself
    rfl
  | _ => cases hi

/-- Any other fault covers a token, wherever the text ends. -/
theorem Stuck.start_lt_stop {stop : Span} {goal : Goal} {ts : List Token} {f : SyntaxFault}
    (h : Stuck stop goal ts f) (hi : f.isIncomplete = false) (ht : ∀ t ∈ ts, t.span.start < t.span.stop) :
    f.span.start < f.span.stop := by
  -- the end of the text is empty, but the fault does not depend on it
  have hfinal := h.final hi ⟨0, 1⟩ []
  rw [List.append_nil] at hfinal
  refine hfinal.place (P := fun s => s.start < s.stop) (fun {a b} ha hb => ?_) Nat.one_pos ht
  simp only [Span.merge]
  omega

end Grammar

/-- The place that a syntax fault has in the text, and the token that it names. -/
structure SyntaxFault.BlamedIn (source : String) (fault : SyntaxFault) : Prop where
  within : fault.span.stop ≤ size source.toList
  boundaries : Boundary 0 source.toList fault.span.start ∧ Boundary 0 source.toList fault.span.stop
  place : if fault.isIncomplete then fault.span = .point (size source.toList) else fault.span.start < fault.span.stop
  found : ∀ t expected, fault = .unexpectedToken t expected → ∃ ts, tokenize source = .ok ts ∧ t ∈ ts

theorem Program.ofSource_fault {source : String} {fault : SyntaxFault} (h : ofSource source = .error fault) :
    fault.BlamedIn source := by
  obtain ⟨part, hat⟩ := ofSource_fault_at h
  obtain ⟨hstart, hstop, -⟩ := Text.exists_at_iff.1 ⟨part, hat⟩
  have hle := hat.stop_le
  rw [Nat.zero_add] at hle
  rcases ofSource_eq_error.1 h with ⟨lexical, hl, rfl⟩ | ⟨ts, hts, hp⟩
  · obtain ⟨before, rest, -, -, hs⟩ := exists_stopsAt_of_scan hl
    exact ⟨hle, ⟨hstart, hstop⟩, hs.start_lt_stop, nofun⟩
  · have hstuck := Grammar.program_eq_error.1 hp
    refine ⟨hle, ⟨hstart, hstop⟩, ?_, ?_⟩
    · split
      · next hi => exact hstuck.span_eq_stop hi
      · next hi => exact hstuck.start_lt_stop (Bool.eq_false_iff.2 hi) hts.lossless.nonempty
    · rintro t expected rfl
      obtain ⟨before, u, after, rfl, ho, -⟩ := hstuck.raised rfl
      refine ⟨_, hts.scan, ?_⟩
      cases ho with
      | unexpected => simp

/-! ## Programs that stop -/

/-- Some node of the program has the place of the fault and is to blame for it. -/
def Fault.BlamedIn (p : Program) : Fault → Prop
  | unbound n s =>
    p.Holds (.expr (.name s n)) ∨ p.Holds (.entry (.shorthand s n)) ∨
      ∃ target value, p.Holds (.expr (.assign s target value)) ∧ target.name? = some n
  | constantReassigned n s => ∃ target value, p.Holds (.expr (.assign s target value)) ∧ target.name? = some n
  | alreadyDeclared n s =>
    (∃ d, p.Holds (.stmt d) ∧ d.declared? = some n ∧ d.span = s) ∨
      ∃ callee arguments, p.Holds (.expr (.call s callee arguments))
  | invalidTarget s =>
    ∃ whole target value, p.Holds (.expr (.assign whole target value)) ∧ target.name? = none ∧ target.span = s
  | notCallable _ s => ∃ whole callee arguments, p.Holds (.expr (.call whole callee arguments)) ∧ callee.span = s
  | notAnObject _ s =>
    ∃ whole computed object key, p.Holds (.expr (.member whole computed object key)) ∧ object.span = s
  | invalidKey _ s => ∃ whole object key, p.Holds (.expr (.member whole true object key)) ∧ key.span = s
  | unknownOperator .. => False

/-- In a program that was read only a computed key can be none, and operators are known. -/
theorem Node.Raises.blamedIn {number : Float → Prop} {p : Program} {n : Node} {f : Fault} (h : n.Raises f)
    (hn : p.Holds n) (hw : n.WellFormed number) : f.BlamedIn p := by
  cases h with
  | name => exact .inl hn
  | shorthand => exact .inr (.inl hn)
  | target ht => exact ⟨_, _, _, hn, ht, rfl⟩
  | assigned ht => exact .inr (.inr ⟨_, _, hn, ht⟩)
  | reassigned ht => exact ⟨_, _, hn, ht⟩
  | operator hop => exact hw.not_raises _ _ (.operator hop)
  | callee => exact ⟨_, _, _, hn, rfl⟩
  | parameter => exact .inr ⟨_, _, hn⟩
  | object => exact ⟨_, _, _, _, hn, rfl⟩
  | key hk =>
    cases hw with
    | field => cases hk
    | index => exact ⟨_, _, _, hn, rfl⟩
  | declared | function => exact .inl ⟨_, hn, rfl, rfl⟩

theorem Program.Holds.exists_span {p : Program} {n : Node} (hn : p.Holds n) {f : Fault} (hf : n.Raises f) :
    ∃ m, p.Holds m ∧ f.span = m.span := by
  rcases hf.span with h | ⟨m, hm, h⟩
  · exact ⟨n, hn, h⟩
  · exact ⟨m, hn.child hm, h⟩

/-- A text that is run by itself fails as a text, or at a node of the program that it is. -/
theorem Request.failure_blamed {r : Request} {failure : Failure}
    (h : (r.answer global .populated).outcome = .error failure) :
    (∀ fault, failure = .notAProgram fault → fault.BlamedIn r.source) ∧
      ∀ fault, failure = .stopped fault → ∃ p, Program.ofSource r.source = .ok p ∧ fault.BlamedIn p ∧
        ∃ n, p.Holds n ∧ fault.span = n.span := by
  refine ⟨?_, ?_⟩
  · rintro fault rfl
    exact Program.ofSource_fault (ofSource_of_notAProgram h)
  · rintro fault rfl
    obtain ⟨n, hn, hr⟩ := (answer_raisesAmong (ranAmong_hereditary [r])
      (fun p hp s hs => ⟨r, by simp, p, hp, .stmt hs⟩) (Store.bodiesAmong_populated _)).2 fault h
    have hw := hn.wellFormed
    obtain ⟨q, hq, p, hp, hn⟩ := hn
    obtain rfl := List.mem_singleton.1 hq
    exact ⟨p, hp, hr.blamedIn hn hw, hn.exists_span hr⟩

/-- A computed key two functions deep, and a parenthesis that nothing opens. -/
theorem Request.failure_blamed_nested :
    let stopping : Request := ⟨default, 2, "\"é\"; fn f(o) \x7b fn g() \x7b o[null] \x7d g() \x7d f(\x7b\x7d)"⟩
    let rejected : Request := ⟨default, 2, "f(\"é\")) + 1"⟩
    (∃ value p, (stopping.answer global .populated).outcome = .error (.stopped (.invalidKey value ⟨27, 31⟩)) ∧
        Program.ofSource stopping.source = .ok p ∧ (Fault.invalidKey value ⟨27, 31⟩).BlamedIn p) ∧
      ∃ fault, (rejected.answer global .populated).outcome = .error (.notAProgram fault) ∧ fault.span = ⟨7, 8⟩ ∧
        fault.BlamedIn rejected.source := by
  intro stopping rejected
  obtain ⟨hstops, hrejects⟩ :
      (match (stopping.answer global .populated).outcome with
        | .error (.stopped (.invalidKey _ s)) => decide (s = ⟨27, 31⟩)
        | _ => false) = true ∧
      (match (rejected.answer global .populated).outcome with
        | .error (.notAProgram fault) => decide (fault.span = ⟨7, 8⟩)
        | _ => false) = true := by
    simp only [answer, run_eq]
    decide +kernel
  constructor
  · split at hstops
    · next value s h =>
      obtain rfl : s = ⟨27, 31⟩ := of_decide_eq_true hstops
      obtain ⟨p, hp, hblamed, -⟩ := (failure_blamed h).2 _ rfl
      exact ⟨value, p, h, hp, hblamed⟩
    · cases hstops
  · split at hrejects
    · next fault h => exact ⟨fault, h, of_decide_eq_true hrejects, (failure_blamed h).1 fault rfl⟩
    · cases hrejects

end RavenLang
