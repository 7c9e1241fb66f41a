import RavenLang.Evaluation
import RavenLang.Grammar.Program

/-!
# Running a source text

Text to tokens to a tree to a value, in a scope of a store.
-/

namespace RavenLang

inductive Failure where
  | notAProgram (fault : SyntaxFault)
  | stopped (fault : Fault)
  | tooDeep

namespace Failure

def ofStop : Stop → Failure
  | .fault f => stopped f
  | .tooDeep => tooDeep

def span : Failure → Span
  | notAProgram fault => fault.span
  | stopped fault => fault.span
  | tooDeep => .point 0

def message (functions : Functions) : Failure → String
  | notAProgram fault => fault.message
  | stopped fault => fault.message functions
  | tooDeep => "Evaluation Error: Calls are nested too deeply"

end Failure

/-- Runs a source text in a scope. A text that is not a program leaves the store
as it was. -/
def run (calls : Calls) (scope : ScopeId) (source : String) (st : Store) : Except Failure Value × Store :=
  match Program.ofSource source with
  | .error fault => (.error (.notAProgram fault), st)
  | .ok p =>
    let (outcome, st) := (p.eval calls scope).perform st
    (outcome.mapError .ofStop, st)

theorem run_eq (calls : Calls) (scope : ScopeId) (source : String) (st : Store) :
    run calls scope source st =
      match tokenize source with
      | .error fault => (.error (.notAProgram (.lexical fault)), st)
      | .ok ts =>
        match Grammar.program (Token.endSpan ts) (Token.beforeEnd ts) with
        | .error fault => (.error (.notAProgram fault), st)
        | .ok p =>
          let (outcome, st) := (p.eval calls scope).perform st
          (outcome.mapError .ofStop, st) := by
  rw [run, Program.ofSource_eq]
  cases tokenize source <;> rfl

end RavenLang
