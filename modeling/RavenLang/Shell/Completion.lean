import RavenLang.Store
import RavenLang.Token.Lexer

/-!
# Completion

What can be typed after an unfinished word: the rest of a visible name or of a
keyword.
-/

namespace RavenLang.Shell

def insertText (s : String) : List String → List String
  | [] => [s]
  | t :: ts => if s < t then s :: t :: ts else if s = t then t :: ts else t :: insertText s ts

def sortedTexts (texts : List String) : List String := texts.foldr insertText []

def keywords : List String := ["let", "const", "fn", "cho"]

def lastWord? (text : List Char) : Option String :=
  match Token.scan 0 text with
  | .error _ => none
  | .ok ts =>
    match (ts.filter (·.kind ≠ .endOfInput)).getLast? with
    | some t => if t.kind.isWord ∧ t.span.stop = Text.size text then some t.text else none
    | none => none

def rest? (beginning word : String) : Option String :=
  match beginning.toList.isPrefixOf? word.toList with
  | some [] => none
  | some rest => some (.ofList rest)
  | none => none

def endings (st : Store) (scope : ScopeId) (word : String) : List String :=
  sortedTexts ((st.visibleNames scope ++ keywords).filterMap (rest? word))

/-- What may be inserted, and the byte offset at which it is. -/
structure Completions where
  place : Nat
  endings : List String
  deriving DecidableEq, Repr

def complete (st : Store) (scope : ScopeId) (line : String) (cursor : Nat) : Completions :=
  match (Text.before? line.toList cursor).bind lastWord? with
  | some word => ⟨cursor, endings st scope word⟩
  | none => ⟨cursor, []⟩

end RavenLang.Shell
