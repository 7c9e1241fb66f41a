import RavenLang.Proofs.Evaluation.Unplaced
import RavenLang.Proofs.Grammar.Lines

/-!
# Runs one behind the other

Two programs on lines of their own run as the first one does and, unless that fails, the second one
behind it.
-/

namespace RavenLang

variable {calls : Calls} {i : ScopeId}

theorem Program.evalFrom_append (p q : Program) (last : Value) :
    Program.evalFrom calls i last (p ++ q) = (do q.evalFrom calls i (← p.evalFrom calls i last)) := by
  induction p generalizing last with
  | nil => rw [List.nil_append, evalFrom, pure_bind]
  | cons s ss ih =>
    rw [List.cons_append, evalFrom, evalFrom, bind_assoc]
    exact bind_congr fun v => ih v

/-- Runs a text and, unless it fails, another one behind it. A text without statements has no value to
put in place of the first one's. -/
def runBoth (calls : Calls) (scope : ScopeId) (a b : String) (st : Store) : Except Failure Value × Store :=
  match run calls scope a st with
  | (.error e, st) => (.error e, st)
  | (.ok v, st) =>
    match Program.ofSource b with
    | .ok [] => (.ok v, st)
    | _ => run calls scope b st

theorem runBoth_of_ok {a b : String} {p q : Program} (ha : Program.ofSource a = .ok p)
    (hb : Program.ofSource b = .ok q) (st : Store) :
    runBoth calls i a b st =
      (((Program.eval calls i (p ++ q)).perform st).1.mapError .ofStop,
        ((Program.eval calls i (p ++ q)).perform st).2) := by
  rw [runBoth, run_of_ok ha, Program.eval, Program.eval, Program.evalFrom_append, Action.perform_bind]
  generalize (p.evalFrom calls i .null).perform st = r
  obtain ⟨r, mid⟩ := r
  cases r with
  | error e => rfl
  | ok v =>
    cases q with
    | nil => simp only [hb]; rfl
    | cons s ss => simp only [hb, run_of_ok hb]; rfl

/-- A program that ends in `;`, a line feed and any other text. What is read is what is read of both, the
second one further behind. Two programs are run one after the other: what is printed, the outcome and the
scopes are the same, up to places. -/
theorem run_lines {a : String} {ts : List Token} {p : Program} (ha : tokenize a = .ok ts)
    (hp : Program.ofSource a = .ok p) (ht : Grammar.Terminated (Token.beforeEnd ts)) (b : String) :
    Program.ofSource (a ++ "\n" ++ b) =
        (Parsed.mapSpans (·.shift (Text.behindLine a)) (Program.ofSource b)).map (p ++ ·) ∧
      ∀ q, Program.ofSource b = .ok q → ∀ host : Host, host.Blind → ∀ depth scope st,
        SameEnd Failure.erase (run (host.calls depth) scope (a ++ "\n" ++ b) st)
          (runBoth (host.calls depth) scope a b st) := by
  obtain ⟨us, rfl, hus⟩ := Scanned.of_scan ha
  rw [Token.beforeEnd_append_endAt fun t ht => hus.ne_endOfInput ht] at ht
  have hlines := Program.ofSource_lines hus hp ht b
  refine ⟨hlines, fun q hq host hblind depth scope st => ?_⟩
  rw [hq] at hlines
  rw [run_of_ok hlines, runBoth_of_ok hp hq]
  refine SameEnd.ofStop ((hblind.calls depth).program ?_ .null st st rfl)
  rw [Program.erase, Program.erase, List.map_append, List.map_append]
  exact congrArg (p.map Stmt.erase ++ ·) (Program.erase_mapSpans _ q)

/-- A variable is declared on the first line, and a function that reads it on the second. -/
theorem run_lines_function :
    let a := "let x = true;"
    let b := "fn f() \x7b print(x) \x7d f()"
    let calls := (Host.plain default).calls 2
    let st := Store.empty.addGlobal.2
    (∃ p q, Program.ofSource a = .ok p ∧ Program.ofSource b = .ok q ∧
        Program.ofSource (a ++ "\n" ++ b) = .ok (p ++ q.map (·.mapSpans (·.shift 14)))) ∧
      (run calls 0 (a ++ "\n" ++ b) st).2.printed = "true\n" ∧
      SameEnd Failure.erase (run calls 0 (a ++ "\n" ++ b) st) (runBoth calls 0 a b st) := by
  intro a b calls st
  have hprogram (source : String) (h : (Program.ofSource source).isOk = true) :
      ∃ p, Program.ofSource source = .ok p := by
    cases hp : Program.ofSource source with
    | ok p => exact ⟨p, rfl⟩
    | error fault =>
      rw [hp] at h
      cases h
  obtain ⟨p, hp⟩ := hprogram a (by rw [Program.ofSource_eq]; decide +kernel)
  obtain ⟨q, hq⟩ := hprogram b (by rw [Program.ofSource_eq]; decide +kernel)
  let last : Token := ⟨.semicolon, ";", ⟨12, 13⟩⟩
  have ha : tokenize a = .ok [⟨.letWord, "let", ⟨0, 3⟩⟩, ⟨.identifier, "x", ⟨4, 5⟩⟩,
      ⟨.equals, "=", ⟨6, 7⟩⟩, ⟨.identifier, "true", ⟨8, 12⟩⟩, last, .endAt 13] := by decide +kernel
  obtain ⟨hlines, hrun⟩ := run_lines ha hp (fun t ht => Option.some.inj ht ▸ rfl) b
  refine ⟨⟨p, q, hp, hq, ?_⟩, by rw [run_eq]; decide +kernel, hrun q hq _ (Host.plain_blind default) 2 0 st⟩
  have hbehind : Text.behindLine a = 14 := by decide +kernel
  rw [hlines, hq, hbehind]
  rfl

end RavenLang
