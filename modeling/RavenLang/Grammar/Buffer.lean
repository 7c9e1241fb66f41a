import RavenLang.Grammar.Fault

/-!
# Buffers

A parser moves through a buffer of tokens by their positions. The buffer ends with an
end-of-input token, which is looked at but never taken, so a parser can look ahead
wherever it stands.
-/

namespace RavenLang

namespace Token

/-- The list with an end-of-input token behind it, unless its last token is one. -/
def closed (ts : List Token) : List Token :=
  match ts.getLast? with
  | none => [.endAt 0]
  | some t => if t.kind = .endOfInput then ts else ts ++ [.endAt t.span.stop]

def unexpected (found : Token) (expected : String) : SyntaxFault :=
  if found.kind = .endOfInput then .unexpectedEnd expected found.span else .unexpectedToken found expected

end Token

structure Buffer where
  tokens : Array Token

/-- Reads from a position and moves on, or stops at a fault. A parser that looks beyond
its buffer, or that never ends, has no outcome. -/
abbrev Parser := ExceptT SyntaxFault (StateT Nat Option)

/-- What is read, or the fault, and the position behind it. -/
def Parser.outcome {α : Type} (m : Parser α) (p : Nat) : Option (Except SyntaxFault α × Nat) :=
  StateT.run (ExceptT.run m) p

/-! ## Single tokens -/

namespace Buffer

def of (ts : List Token) : Buffer := ⟨(Token.closed ts).toArray⟩

/-- The token at a position. Behind the last token that token is still seen. -/
def token? (self : Buffer) (p : Nat) : Option Token := self.tokens[min p (self.tokens.size - 1)]?

def peek (self : Buffer) : Parser Token := do self.token? (← get)

def isAt (self : Buffer) (kind : TokenKind) : Parser Bool := return (← self.peek).kind = kind

/-- Takes the token at the position, but no end of input. -/
def next (self : Buffer) : Parser Token := do
  let t ← self.peek
  if t.kind ≠ .endOfInput then modify (· + 1)
  return t

def expect (self : Buffer) (kind : TokenKind) (expected : String) : Parser Token := do
  let t ← self.next
  if t.kind = kind then return t else throw (t.unexpected expected)

end Buffer

/-! ## What parsers do -/

namespace Parser

variable {α β : Type} (p : Nat)

@[simp] theorem outcome_pure (x : α) : (pure x : Parser α).outcome p = some (.ok x, p) := rfl

theorem outcome_bind (m : Parser α) (k : α → Parser β) :
    (m >>= k).outcome p =
      match m.outcome p with
      | none => none
      | some (.error f, p) => some (.error f, p)
      | some (.ok x, p) => (k x).outcome p := by
  simp only [outcome, ExceptT.run_bind, StateT.run_bind]
  rcases StateT.run (ExceptT.run m) p with _ | ⟨_ | _, _⟩ <;> rfl

theorem outcome_peek (b : Buffer) : b.peek.outcome p = (b.token? p).map fun t => (.ok t, p) := by
  change outcome ((b.token? p : Option Token) : Parser Token) p = _
  cases b.token? p <;> rfl

variable {p} {b : Buffer} {t : Token} (h : b.token? p = some t)
include h

theorem outcome_bind_peek (k : Token → Parser α) : (b.peek >>= k).outcome p = (k t).outcome p := by
  rw [outcome_bind, outcome_peek, h]
  rfl

theorem outcome_bind_next (k : Token → Parser α) :
    (b.next >>= k).outcome p = (k t).outcome (if t.kind = .endOfInput then p else p + 1) := by
  rw [Buffer.next, bind_assoc, outcome_bind_peek h]
  by_cases ht : t.kind = .endOfInput
  · rw [if_neg (not_not_intro ht), if_pos ht]
    rfl
  · rw [if_pos ht, if_neg ht]
    rfl

end Parser

end RavenLang
