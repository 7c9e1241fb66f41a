import RavenLang.Proofs.Evaluation.Isolation
import RavenLang.Proofs.Evaluation.Unplaced
import RavenLang.Proofs.Grammar.Unplaced

/-!
# Layout does not matter

Two texts with the same tokens, whatever white space and comments stand between these, are read and
answered the same, up to places.
-/

namespace RavenLang

/-! ## Reading -/

theorem Token.mapSpan_forget (t : Token) : t.mapSpan .forget = t.piece.token := rfl

theorem Grammar.Alike.mapSpan_forget {ts us : List Token} (h : Alike ts us) :
    ts.map (Token.mapSpan .forget) = us.map (Token.mapSpan .forget) := by
  have hpieces (ts : List Token) : ts.map (Token.mapSpan .forget) = (ts.map Token.piece).map Piece.token := by
    rw [List.map_map]
    exact List.map_congr_left fun t _ => t.mapSpan_forget
  rw [hpieces, hpieces, show ts.map Token.piece = us.map Token.piece from h]

theorem Program.ofSource_alike {a b : String} {ts us : List Token} (ha : tokenize a = .ok ts)
    (hb : tokenize b = .ok us) (h : Grammar.Alike ts us) :
    Parsed.erase (ofSource a) = Parsed.erase (ofSource b) := by
  obtain ⟨vs, rfl, hvs⟩ := Scanned.of_scan ha
  obtain ⟨ws, rfl, hws⟩ := Scanned.of_scan hb
  have h : Grammar.Alike vs ws := by
    rw [Grammar.Alike, List.map_append, List.map_append] at h
    exact List.append_inj_left' h rfl
  have hread (stop : Span) (ts : List Token) : Parsed.erase (Grammar.program stop ts) =
      Grammar.program default (ts.map (Token.mapSpan .forget)) :=
    (Grammar.program_mapSpan (fun _ _ => rfl) stop ts).symm
  rw [ofSource_of_scanned hvs, ofSource_of_scanned hws, hread, hread, h.mapSpan_forget]

/-! ## Alike without places -/

section
variable {w : Pairing} {place : Span → Span}

theorem Fault.Alike.erase {f f' : Fault} (h : f.Alike place w f') : f.erase.Alike id w f'.erase := by
  cases h with
  | alreadyDeclared n s => exact .alreadyDeclared n default
  | unbound n s => exact .unbound n default
  | constantReassigned n s => exact .constantReassigned n default
  | invalidTarget s => exact .invalidTarget default
  | notCallable s hv => exact .notCallable default hv
  | notAnObject s hv => exact .notAnObject default hv
  | invalidKey s hv => exact .invalidKey default hv
  | unknownOperator op s => exact .unknownOperator op default

theorem Function.Alike.erase {f f' : Function} (h : f.Alike place w f') : f.erase.Alike id w f'.erase := by
  refine ⟨h.name, h.parameters, ?_, h.scope⟩
  rw [Function.erase, Function.erase, h.body, Stmt.mapSpansAll_id, Stmt.mapSpansAll_eq_map]
  exact Program.erase_mapSpans place f.body

theorem Pairing.Holds.erase {st st' : Store} (h : w.Holds place st st') : w.Holds id st.erase st'.erase where
  scope := h.scope
  function hg := by
    obtain ⟨f, f', hf, hf', ha⟩ := h.function hg
    refine ⟨f.erase, f'.erase, ?_, ?_, ha.erase⟩
    · rw [Store.erase_functions, hf, Option.map_some]
    · rw [Store.erase_functions, hf', Option.map_some]
  scope_unique := h.scope_unique
  function_unique := h.function_unique

theorem OutcomeAlike.erase {r r' : Except Failure Value} (h : OutcomeAlike w r r') :
    OutcomeAlike w (r.mapError Failure.erase) (r'.mapError Failure.erase) := by
  cases h with
  | value hv => exact .value hv
  | failure he =>
    refine .failure ?_
    cases he with
    | notAProgram f => exact .notAProgram _
    | stopped hf => exact .stopped hf.erase
    | tooDeep => exact .tooDeep

end

/-! ## Answers -/

/-- The answer without places. -/
def Answer.erase (a : Answer) : Answer := ⟨a.outcome.mapError Failure.erase, a.store.erase⟩

theorem Answer.Alike.erase {a a' : Answer} (h : a.Alike a') : a.erase.Alike a'.erase := by
  obtain ⟨w, hw, ho⟩ := h.outcome
  exact ⟨⟨w, hw.erase, ho.erase⟩, Answer.shown_of_alike hw.erase ho.erase, h.printed⟩

theorem SameEnd.tooDeep {r r' : Except Failure Value × Store} (h : SameEnd Failure.erase r r')
    (hr : r'.1 = .error .tooDeep) : r.1 = .error .tooDeep := by
  have ho := h.outcome
  rw [hr] at ho
  cases he : r.1 with
  | ok v =>
    rw [he] at ho
    cases ho
  | error e =>
    rw [he] at ho
    cases e with
    | tooDeep => rfl
    | _ => cases ho

namespace Request

variable {r s : Request} {i : ScopeId} {st : Store}

theorem Timeless.congr (ht : r.Timeless i st) (hd : s.depth = r.depth)
    (hread : Parsed.erase (Program.ofSource r.source) = Parsed.erase (Program.ofSource s.source)) :
    s.Timeless i st := by
  intro hs
  rw [hd] at hs
  exact ht (((Calls.clockless_blind r.depth).run hread rfl).tooDeep hs)

/-- Texts with the same tokens are the same programs or are rejected for the same reason, up to places.
In populated scopes just made they are answered the same, up to places and identities. -/
theorem answer_layout {ts us : List Token} (hr : tokenize r.source = .ok ts) (hs : tokenize s.source = .ok us)
    (h : Grammar.Alike ts us) :
    Parsed.erase (Program.ofSource r.source) = Parsed.erase (Program.ofSource s.source) ∧
      ∀ st st' : Store, r.depth ≤ s.depth → r.Timeless st.addGlobal.1 st.addGlobal.2 →
        (s.answer st'.addGlobal.1 st'.addGlobal.2).erase.Alike
          (r.answer st.addGlobal.1 st.addGlobal.2).erase := by
  have hread := Program.ofSource_alike hr hs h
  refine ⟨hread, fun st st' hd ht => ?_⟩
  -- First the other text in the same store, then that text in the other store.
  let t : Request := ⟨r.now, r.depth, s.source⟩
  let global := st.addGlobal
  have hrt : (r.answer global.1 global.2).erase = (t.answer global.1 global.2).erase := by
    have hblind := (Host.plain_blind r.now).calls r.depth
    have hsame : SameEnd Failure.erase (run _ global.1 r.source global.2.unprinted)
        (run _ global.1 t.source global.2.unprinted) := hblind.run hread rfl
    exact congrArg₂ Answer.mk hsame.outcome hsame.store
  have hstart := Pairing.single_holds st'.scopes_addGlobal st.scopes_addGlobal
  have htt : t.Timeless global.1 global.2 := ht.congr rfl hread
  obtain ⟨-, -, -, -, hst⟩ := hstart.answer ⟨rfl, rfl⟩ (r := t) (s := s) rfl hd htt
  rw [hrt]
  exact hst.erase

/-- One text without any space that it does not need, and one with comments. -/
theorem answer_layout_comments :
    let r : Request := ⟨default, 2, "let x=true;fn f()\x7bprint(x)x\x7df()"⟩
    let s : Request := ⟨default, 2, "let x = true; // once\nfn f() \x7b\n  print( x ) /* twice\n */ x\n\x7d\nf()"⟩
    let global := Store.empty.addGlobal
    r.Timeless global.1 global.2 ∧ (r.answer global.1 global.2).shown = .ok "true" ∧
      Parsed.erase (Program.ofSource r.source) = Parsed.erase (Program.ofSource s.source) ∧
      (s.answer global.1 global.2).erase.Alike (r.answer global.1 global.2).erase := by
  intro r s global
  have htokens : (tokenize r.source).map (·.map Token.piece) = (tokenize s.source).map (·.map Token.piece) := by
    decide +kernel
  have hok : (tokenize r.source).isOk = true := by decide +kernel
  cases hr : tokenize r.source with
  | error fault =>
    rw [hr] at hok
    cases hok
  | ok ts =>
    cases hs : tokenize s.source with
    | error fault =>
      rw [hr, hs] at htokens
      cases htokens
    | ok us =>
      rw [hr, hs] at htokens
      obtain ⟨hread, hanswer⟩ := answer_layout hr hs (Except.ok.inj htokens)
      have ht : r.Timeless global.1 global.2 := by
        simp only [Timeless, run_eq]
        decide +kernel
      have hshown : (r.answer global.1 global.2).shown = .ok "true" := by
        simp only [answer, run_eq]
        decide +kernel
      exact ⟨ht, hshown, hread, hanswer .empty .empty (Nat.le_refl _) ht⟩

end Request

end RavenLang
