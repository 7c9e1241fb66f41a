import RavenLang.Grammar.Expression

/-!
# Reading statements and programs

A declaration of a variable or a function, or an expression with an optional `;`.
-/

namespace RavenLang.Grammar

variable {n : Nat} (stop : Span)

/-- `let` or `const` with its keyword already taken. A constant needs a value. -/
def declaration (keyword : Token) (ts : List Token) : Reading Stmt ts.length := do
  let constant := keyword.kind = .constWord
  let name ← token stop .identifier Expected.variableName ts
  match accept .semicolon name.rest with
  | some last =>
    let span := keyword.span.merge last.value.span
    if constant then throw (.missingInitializer span)
    else return name.upTo last (.declare span constant name.value.text none)
  | none =>
    let equals ← token stop .equals Expected.initializer name.rest
    let value ← expression stop equals.rest
    let last ← token stop .semicolon Expected.declarationEnd value.rest
    return name.upTo (equals.upTo (value.upTo last ()) ())
      (.declare (keyword.span.merge last.value.span) constant name.value.text (some value.value))

def functionDeclaration (sub : Reader Stmt n) (keyword : Token) (ts : List Token) (h : ts.length < n) :
    Reading Stmt ts.length := do
  let name ← token stop .identifier Expected.functionName ts
  let list ← arguments stop (fun us (_ : us.length < name.rest.length) => expression stop us)
    name.rest (Nat.le_refl _)
  let parameters ← parameterNames list.value.1
  let start ← token stop .openBrace Expected.bodyStart list.rest
  have shorter : start.rest.length < ts.length :=
    Nat.lt_trans start.rest_lt (Nat.lt_trans list.rest_lt name.rest_lt)
  let body ← many (·.kind ≠ .closeBrace) sub start.rest (Nat.lt_trans shorter h)
  let close ← token stop .closeBrace Expected.bodyEnd body.rest
  return ⟨.function (keyword.span.merge close.value.span) name.value.text parameters body.values,
    close.rest, Nat.lt_trans (Nat.lt_of_lt_of_le close.rest_lt body.rest_le) shorter⟩

def expressionStatement (ts : List Token) : Reading Stmt ts.length := do
  let e ← expression stop ts
  match accept .semicolon e.rest with
  | some last =>
    return e.upTo last (.expr (e.value.span.merge last.value.span) e.value)
  | none => return e.map fun value => .expr value.span value

def statementOver (sub : Reader Stmt n) (ts : List Token) (h : ts.length ≤ n) : Reading Stmt ts.length :=
  match ts with
  | [] => expressionStatement stop []
  | t :: ts =>
    if t.kind = .letWord ∨ t.kind = .constWord then do
      let s ← declaration stop t ts
      return s.behind t s.value
    else if t.kind = .fnWord then do
      let s ← functionDeclaration stop sub t ts h
      return s.behind t s.value
    else expressionStatement stop (t :: ts)

def statement (ts : List Token) : Reading Stmt ts.length :=
  statementOver stop (fun us _ => statement us) ts (Nat.le_refl _)
termination_by ts.length

def program (ts : List Token) : Except SyntaxFault Program :=
  (many (fun _ => true) (fun us (_ : us.length < ts.length + 1) => statement stop us) ts
    (Nat.lt_succ_self _)).map (·.values)

end RavenLang.Grammar
