import RavenLang.Run

/-!
# Requests and answers

Source texts are run in a scope one after the other.
-/

namespace RavenLang

structure Request where
  now : Clock
  depth : Nat
  source : String

/-- The outcome of a request and the store behind it, which holds what the request printed. -/
structure Answer where
  outcome : Except Failure Value
  store : Store

namespace Answer

/-- The text of the value, or of the error. -/
def shown (a : Answer) : Except String String :=
  match a.outcome with
  | .ok v => .ok (v.text a.store.functions)
  | .error e => .error (e.message a.store.functions)

def printed (a : Answer) : String := a.store.printed

end Answer

def Store.unprinted (st : Store) : Store := { st with printed := "" }

namespace Request

def answer (r : Request) (scope : ScopeId) (st : Store) : Answer :=
  let ran := run ((Host.plain r.now).calls r.depth) scope r.source st.unprinted
  ⟨ran.1, ran.2⟩

def answers (scope : ScopeId) : List Request → Store → List Answer
  | [], _ => []
  | r :: rs, st => r.answer scope st :: answers scope rs (r.answer scope st).store

end Request

end RavenLang
