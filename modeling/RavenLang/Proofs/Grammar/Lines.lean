import RavenLang.Proofs.Grammar.Moved
import RavenLang.Proofs.Grammar.Offence
import RavenLang.Proofs.Grammar.Parameters

/-!
# Programs one behind the other

What ends in `;` is read apart from what follows it, and a line feed parts the tokens of two texts. So a
program behind another one is read as it is alone, but for its places.
-/

namespace RavenLang

namespace Grammar

variable {stop : Span} {p q : Program} {ts rest : List Token}

/-- The last token is a `;`, or there is none. -/
def Terminated (ts : List Token) : Prop := ∀ t, ts.getLast? = some t → t.kind = .semicolon

theorem Terminated.of_append {us : List Token} (h : Terminated (us ++ ts)) : Terminated ts := by
  intro t ht
  exact h t (by simp [List.getLast?_append, ht])

theorem Spells.closed_of_terminated {E : List Token → List Token → Prop} {closed : Bool} {s : Stmt}
    (h : Spells E (.statement closed s) ts) (ht : Terminated ts) : closed = true := by
  cases h with
  | @bare e _ hd =>
    have hs := hd.standsInExpressions _ (List.getLast_mem hd.ne_nil)
    rw [ht _ (List.getLast?_eq_some_getLast hd.ne_nil)] at hs
    cases hs
  | _ => rfl

/-- Nothing that follows can be taken for a part of what is terminated. -/
theorem Repeated.before {starts : Token → Bool} (h : Repeated (Started starts StatementAt) [] p ts)
    (ht : Terminated ts) (rest : List Token) : Repeated StatementAt rest p ts := by
  induction h with
  | nil => exact .nil
  | @cons s ss us ws hs _ ih =>
    refine .cons ?_ (ih ht.of_append)
    cases ws with
    | nil =>
      obtain ⟨closed, hs, -⟩ := hs.1
      rw [List.append_nil] at ht
      exact ⟨closed, hs, fun hc => absurd (hs.closed_of_terminated ht) (by simp [hc])⟩
    | cons t ws =>
      have hhead : SameHead (t :: ws ++ []) (t :: ws ++ rest) := .some (.refl t)
      exact hhead.statementAt hs.1

theorem Repeated.spells (h : Repeated StatementAt rest p ts)
    (hq : Spells Level.assignment.Stops (.statements q) rest) :
    Spells Level.assignment.Stops (.statements (p ++ q)) (ts ++ rest) := by
  induction h with
  | nil => exact hq
  | cons hs _ ih =>
    obtain ⟨closed, hs, hend⟩ := hs
    rw [List.append_assoc]
    exact .cons hs (fun hc => (hend hc).1) ih

theorem Repeated.stuck {inBody : Bool} {f : SyntaxFault} (h : Repeated StatementAt rest p ts)
    (hst : Stuck stop (.statements inBody) rest f) : Stuck stop (.statements inBody) (ts ++ rest) f := by
  induction h with
  | nil => exact hst
  | cons hs _ ih =>
    rw [List.append_assoc]
    exact .nextStatement hs ih

theorem program_append (hp : program stop ts = .ok p) (ht : Terminated ts) (stop' : Span) (rest : List Token) :
    program stop' (ts ++ rest) = (program stop' rest).map (p ++ ·) := by
  have halone : Repeated (Started (fun _ => true) StatementAt) [] p ts :=
    repeated_of_spells (by simp [EndsBody]) (by simp) (program_eq_ok.1 hp)
  have hrep := halone.before ht rest
  cases hq : program stop' rest with
  | ok q => exact program_eq_ok.2 (hrep.spells (program_eq_ok.1 hq))
  | error fault => exact program_eq_error.2 (hrep.stuck (program_eq_error.1 hq))

end Grammar

/-! ## Texts -/

open Grammar

theorem Scanned.shift {cs : List Char} {ts : List Token} (h : Scanned 0 cs ts) (n : Nat) :
    Scanned n cs (ts.map (Token.mapSpan (·.shift n))) := by
  have hscan := Token.scan_shift n 0 cs
  rw [h.scan, Nat.zero_add] at hscan
  obtain ⟨us, he, hus⟩ := of_scan hscan
  rw [List.map_append] at he
  rwa [List.append_inj_left' he rfl]

/-- Behind a line feed, scanning starts anew. -/
theorem Scanned.scan_behindLine {cs : List Char} {ts : List Token} (h : Scanned 0 cs ts) (ds : List Char) :
    Token.scan 0 (cs ++ '\n' :: ds) =
      ((Token.scan 0 ds).mapError (LexicalFault.mapSpan (·.shift (Text.size cs + 1)))).map
        (ts ++ ·.map (Token.mapSpan (·.shift (Text.size cs + 1)))) := by
  have hshift := Token.scan_shift (Text.size cs + 1) 0 ds
  rw [Nat.zero_add] at hshift
  rw [h.scan_lines, Nat.zero_add, hshift]
  cases Token.scan 0 ds <;> rfl

/-- The place behind a text and a line feed. -/
def Text.behindLine (a : String) : Nat := size a.toList + 1

theorem Scanned.lines {a b : String} {ts us : List Token} (ha : Scanned 0 a.toList ts) (hb : Scanned 0 b.toList us) :
    Scanned 0 (a ++ "\n" ++ b).toList (ts ++ us.map (Token.mapSpan (·.shift (Text.behindLine a)))) := by
  rw [Text.toList_lines, ha.lines_iff, Nat.zero_add]
  exact ⟨_, rfl, hb.shift _⟩

namespace Program

/-- Behind a program that is terminated and a line feed, a text is read as it is alone, further behind. -/
theorem ofSource_lines {a : String} {ts : List Token} (ha : Scanned 0 a.toList ts) {p : Program}
    (hp : ofSource a = .ok p) (ht : Terminated ts) (b : String) :
    ofSource (a ++ "\n" ++ b) = (Parsed.mapSpans (·.shift (Text.behindLine a)) (ofSource b)).map (p ++ ·) := by
  cases hb : tokenize b with
  | error fault =>
    have hscan := ha.scan_behindLine b.toList
    rw [← tokenize, hb] at hscan
    rw [ofSource, ofSource, tokenize, Text.toList_lines, hscan, hb]
    rfl
  | ok vs =>
    obtain ⟨us, -, hus⟩ := Scanned.of_scan hb
    have hsize : Text.size (a ++ "\n" ++ b).toList = Text.size b.toList + Text.behindLine a := by
      have hfeed : '\n'.utf8Size = 1 := by decide
      rw [Text.toList_lines, Text.size_append, Text.size_cons, Text.behindLine]
      omega
    have hmoved := @program_mapSpan (·.shift (Text.behindLine a)) (Span.shift_merge _) (.point (Text.size b.toList)) us
    rw [ofSource_of_scanned ha] at hp
    rw [ofSource_of_scanned (ha.lines hus), ofSource_of_scanned hus, program_append hp ht, hsize, ← hmoved]
    rfl

end Program

end RavenLang
