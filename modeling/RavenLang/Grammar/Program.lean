import RavenLang.Grammar.Following

/-!
# Programs

Texts are cut into tokens, and these are parsed.
-/

namespace RavenLang.Program

def ofTokens (ts : List Token) : Except SyntaxFault Program :=
  (Parser.read? ts).get (by rw [Parser.read?_eq]; rfl)

def ofSource (source : String) : Except SyntaxFault Program :=
  match tokenize source with
  | .error fault => .error (.lexical fault)
  | .ok ts => ofTokens ts

theorem ofTokens_eq (ts : List Token) : ofTokens ts = Grammar.program (Token.endSpan ts) (Token.beforeEnd ts) := by
  simp only [ofTokens, Parser.read?_eq, Option.get_some]

theorem ofSource_eq (source : String) :
    ofSource source =
      match tokenize source with
      | .error fault => .error (.lexical fault)
      | .ok ts => Grammar.program (Token.endSpan ts) (Token.beforeEnd ts) := by
  rw [ofSource]
  cases tokenize source with
  | error fault => rfl
  | ok ts => exact ofTokens_eq ts

end RavenLang.Program
