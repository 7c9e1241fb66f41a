import RavenLang.Proofs.Grammar.Ambiguity
import RavenLang.Proofs.Grammar.Moved

/-!
# Where the input ends

A token list ends at its first end-of-input token, and a list without one as if such a token stood behind
its last token. What is read depends on the tokens before the end, and on its place in the fault of an early
end only.
-/

namespace RavenLang

namespace Program

open Grammar

theorem ofTokens_endingAt {ts us : List Token} (h : Token.beforeEnd us = Token.beforeEnd ts) :
    ofTokens us = (ofTokens ts).mapError (·.endingAt (Token.endSpan us)) := by
  rw [ofTokens_eq, ofTokens_eq, h]
  exact program_endingAt _ _ _

end Program

end RavenLang
