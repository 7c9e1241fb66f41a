import RavenLang.Grammar.Program
import RavenLang.Proofs.Grammar.Program
import RavenLang.Proofs.Token.Scanned

/-!
# Programs and their texts

A text is a program if it is cut into tokens that spell one.
-/

namespace RavenLang

section
variable {ε α : Type} {r : Except ε α}

/-- What one text is read as, or evaluated to, is found by reading and evaluating it. -/
instance decidableExistsOk {P : α → Prop} [DecidablePred P] : Decidable (∃ x, r = .ok x ∧ P x) :=
  match r with
  | .ok x => decidable_of_iff (P x) ⟨fun h => ⟨x, rfl, h⟩, fun ⟨_, hx, h⟩ => Except.ok.inj hx ▸ h⟩
  | .error _ => .isFalse nofun

instance decidableExistsError {P : ε → Prop} [DecidablePred P] : Decidable (∃ e, r = .error e ∧ P e) :=
  match r with
  | .ok _ => .isFalse nofun
  | .error e => decidable_of_iff (P e) ⟨fun h => ⟨e, rfl, h⟩, fun ⟨_, he, h⟩ => Except.error.inj he ▸ h⟩

end

theorem Text.toList_lines (a b : String) : (a ++ "\n" ++ b).toList = a.toList ++ '\n' :: b.toList := by simp

theorem Scanned.fitting {o : Nat} {cs : List Char} {ts : List Token} (h : Scanned o cs ts) :
    Fitting (ts.map Token.piece) := by
  induction h with
  | nil => exact fitting_nil
  | trivia _ _ ih => exact ih
  | token hcut _ ih => exact fitting_cons.2 ⟨hcut.piece.1, ih⟩

theorem Scanned.ne_endOfInput {o : Nat} {cs : List Char} {ts : List Token} (h : Scanned o cs ts) {t : Token}
    (ht : t ∈ ts) : t.kind ≠ .endOfInput :=
  (h.fitting t.piece (List.mem_map_of_mem ht)).ne_endOfInput

namespace Program

open Grammar

variable {source : String} {ts : List Token} {p : Program}

theorem ofSource_of_scanned (h : Scanned 0 source.toList ts) :
    ofSource source = program (.point (Text.size source.toList)) ts := by
  have hend : ∀ t ∈ ts, t.kind ≠ .endOfInput := fun t ht => h.ne_endOfInput ht
  rw [ofSource, tokenize, h.scan]
  simp only [ofTokens_eq, Token.beforeEnd_append_endAt hend, Token.endSpan_append_endAt hend, Nat.zero_add]

theorem ofSource_eq_ok :
    ofSource source = .ok p ↔
      ∃ ts, Scanned 0 source.toList ts ∧ Spells Level.assignment.Stops (.statements p) ts := by
  constructor
  · intro h
    cases hts : tokenize source with
    | error fault =>
      rw [ofSource, hts] at h
      cases h
    | ok us =>
      obtain ⟨ts, -, hs⟩ := Scanned.of_scan hts
      rw [ofSource_of_scanned hs] at h
      exact ⟨ts, hs, program_eq_ok.1 h⟩
  · rintro ⟨ts, hs, hp⟩
    rw [ofSource_of_scanned hs]
    exact program_eq_ok.2 hp

/-- What is wrong with a text is wrong with its characters or with its tokens. -/
theorem ofSource_eq_error {fault : SyntaxFault} :
    ofSource source = .error fault ↔
      (∃ lexical, tokenize source = .error lexical ∧ fault = .lexical lexical) ∨
        ∃ ts, Scanned 0 source.toList ts ∧ program (.point (Text.size source.toList)) ts = .error fault := by
  constructor
  · intro h
    cases hts : tokenize source with
    | error lexical =>
      rw [ofSource, hts] at h
      cases h
      exact .inl ⟨lexical, rfl, rfl⟩
    | ok us =>
      obtain ⟨ts, -, hs⟩ := Scanned.of_scan hts
      rw [ofSource_of_scanned hs] at h
      exact .inr ⟨ts, hs, h⟩
  · rintro (⟨lexical, hl, rfl⟩ | ⟨ts, hs, hp⟩)
    · rw [ofSource, hl]
    · rw [ofSource_of_scanned hs, hp]

end Program

end RavenLang
