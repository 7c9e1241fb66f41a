import RavenLang.Grammar.Fault

/-!
# Reading tokens

What a parser does with the tokens that are ahead, without its positions. A reader
takes a phrase from the head of a token list and returns what it read with the tokens
that are left. That some token was taken is part of the result, so every repetition
ends.

The lists hold no end-of-input token: the empty list is the end of the input, and
`stop` is the span reported for it.
-/

namespace RavenLang.Grammar

/-- A phrase read from fewer than `n` tokens' worth of input: less is left. -/
structure Phrase (α : Type) (n : Nat) where
  value : α
  rest : List Token
  rest_lt : rest.length < n

structure Phrases (α : Type) (n : Nat) where
  values : List α
  rest : List Token
  rest_le : rest.length ≤ n

abbrev Reading (α : Type) (n : Nat) := Except SyntaxFault (Phrase α n)

abbrev Reader (α : Type) (n : Nat) := ∀ ts : List Token, ts.length < n → Reading α ts.length

variable {α β γ : Type} {n : Nat}

theorem length_lt_cons (t : Token) (ts : List Token) : ts.length < (t :: ts).length :=
  Nat.lt_succ_self _

def Phrase.map (f : α → β) (p : Phrase α n) : Phrase β n :=
  ⟨f p.value, p.rest, p.rest_lt⟩

def Phrase.behind {ts : List Token} (t : Token) (p : Phrase α ts.length) (value : β) :
    Phrase β (t :: ts).length :=
  ⟨value, p.rest, Nat.lt_succ_of_lt p.rest_lt⟩

def Phrase.upTo (p : Phrase α n) (q : Phrase β p.rest.length) (value : γ) : Phrase γ n :=
  ⟨value, q.rest, Nat.lt_trans q.rest_lt p.rest_lt⟩

def unexpected (stop : Span) (expected : String) : List Token → SyntaxFault
  | [] => .unexpectedEnd expected stop
  | t :: _ => .unexpectedToken t expected

def startsWith (kind : TokenKind) : List Token → Bool
  | [] => false
  | t :: _ => t.kind = kind

def accept (kind : TokenKind) (ts : List Token) : Option (Phrase Token ts.length) :=
  match ts with
  | [] => none
  | t :: ts => if t.kind = kind then some ⟨t, ts, length_lt_cons t ts⟩ else none

def token (stop : Span) (kind : TokenKind) (expected : String) (ts : List Token) : Reading Token ts.length :=
  match accept kind ts with
  | some t => .ok t
  | none => .error (unexpected stop expected ts)

/-- Reads phrases as long as the next token may start one. -/
def many (starts : Token → Bool) (phrase : Reader α n) (ts : List Token) (h : ts.length < n) :
    Except SyntaxFault (Phrases α ts.length) :=
  match ts with
  | [] => .ok ⟨[], [], Nat.le_refl _⟩
  | t :: ts =>
    if starts t then do
      let first ← phrase (t :: ts) h
      let others ← many starts phrase first.rest (Nat.lt_trans first.rest_lt h)
      return ⟨first.value :: others.values, others.rest,
        Nat.le_of_lt (Nat.lt_of_le_of_lt others.rest_le first.rest_lt)⟩
    else .ok ⟨[], t :: ts, Nat.le_refl _⟩
termination_by ts.length
decreasing_by exact first.rest_lt

end RavenLang.Grammar
