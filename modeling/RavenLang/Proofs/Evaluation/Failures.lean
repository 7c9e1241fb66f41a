import RavenLang.Proofs.Evaluation.Places
import RavenLang.Proofs.Grammar.Nodes
import RavenLang.Proofs.Token.Stopped

/-!
# Failures in their text

A failure of a text that is run by itself stands in that text, and never inside a character.
-/

namespace RavenLang

open Text (size At)

/-! ## Characters -/

/-- What a lexical fault covers: a character, or all that is left. -/
theorem Uncut.exists_extent {rest : List Char} {cause : LexicalCause} (h : Uncut rest cause) :
    ∃ part after, rest = part ++ after ∧ cause.extent rest = size part := by
  cases h with
  | string | comment => exact ⟨_, [], (List.append_nil _).symm, rfl⟩
  | @character c cs => exact ⟨[c], cs, rfl, rfl⟩

theorem Token.scan_fault_at {o : Nat} {cs : List Char} {fault : LexicalFault} (h : scan o cs = .error fault) :
    ∃ part, At o cs fault.span part := by
  fun_induction scan o cs with
  | case1 => cases h
  | case2 o c cs cause hl =>
    cases h
    obtain ⟨part, after, hcs, hextent⟩ := (Lexeme.uncut_of_next hl).exists_extent
    rw [hextent, hcs]
    exact ⟨part, Text.at_head part after o⟩
  | case3 o c cs l hl hlt stop hk ih =>
    obtain ⟨part, hat⟩ := ih h
    rw [← l.taken_append_rest]
    exact ⟨part, hat.behind⟩
  | case4 o c cs l hl hlt stop kind hk ih =>
    cases hr : scan stop l.rest with
    | ok ts =>
      rw [hr] at h
      cases h
    | error e =>
      rw [hr] at h
      cases h
      obtain ⟨part, hat⟩ := ih hr
      rw [← l.taken_append_rest]
      exact ⟨part, hat.behind⟩

/-! ## Tokens -/

theorem Program.ofSource_fault_at {source : String} {fault : SyntaxFault} (h : ofSource source = .error fault) :
    ∃ part, At 0 source.toList fault.span part := by
  rcases ofSource_eq_error.1 h with ⟨lexical, hl, rfl⟩ | ⟨ts, hts, hp⟩
  · exact Token.scan_fault_at hl
  · have hend : ∃ part, At 0 source.toList (.point (size source.toList)) part :=
      ⟨[], source.toList, [], by simp, by simp [Span.point]⟩
    have htokens : ∀ t ∈ ts, ∃ part, At 0 source.toList t.span part := fun t ht => ⟨_, hts.lossless.spelled t ht⟩
    exact (Grammar.program_eq_error.1 hp).place (P := fun s => ∃ part, At 0 source.toList s part)
      Text.exists_at_merge hend htokens

/-! ## Requests -/

theorem Node.Placed.exists_at {source : String} {n : Node} (h : n.Placed source) :
    ∃ part, At 0 source.toList n.span part := by
  obtain ⟨part, hat, -⟩ := h.reread
  exact ⟨part, hat⟩

namespace Request

theorem failure_at {r : Request} {failure : Failure}
    (h : (r.answer global .populated).outcome = .error failure) :
    ∃ part, At 0 r.source.toList failure.span part := by
  cases failure with
  | notAProgram fault => exact Program.ofSource_fault_at (ofSource_of_notAProgram h)
  | tooDeep => exact ⟨[], [], r.source.toList, rfl, rfl⟩
  | stopped fault =>
    have hA := ranAmong_hereditary [r]
    obtain ⟨n, ⟨q, hq, p, hp, hn⟩, hr⟩ := (answer_raisesAmong hA (fun p hp s hs => ⟨r, by simp, p, hp, .stmt hs⟩)
      (Store.bodiesAmong_populated _)).2 fault h
    obtain rfl := List.mem_singleton.1 hq
    have hplaced := (Program.ofSource_placed hp).1
    change ∃ part, At 0 q.source.toList fault.span part
    rcases hr.span with hs | ⟨m, hm, hs⟩
    · rw [hs]
      exact (hplaced n hn).exists_at
    · rw [hs]
      exact (hplaced m (hn.child hm)).exists_at

end Request

end RavenLang
