import RavenLang.Grammar.Buffer
import RavenLang.Number.Decimal
import RavenLang.Syntax

/-!
# Recursive descent

The parser of programs: one function for each level of an expression and each kind of
statement. A loop goes on as long as the token ahead starts another round.
-/

namespace RavenLang

namespace Grammar

def startsSuffix (t : Token) : Bool :=
  t.kind = .dot || t.kind = .openBracket || t.kind = .openParen

/-- The names of a parameter list, which is read as arguments first. -/
def parameterNames : List Expr → Except SyntaxFault (List String)
  | [] => .ok []
  | e :: es =>
    match e.name? with
    | some name => (parameterNames es).map (name :: ·)
    | none => .error (.invalidParameter e.span)

end Grammar

namespace Parser

/-- The two levels of operators that group to the left. -/
inductive Chain where
  | sum
  | product

def Chain.operators : Chain → List String
  | sum => ["+", "-"]
  | product => ["*", "/", "%", "^"]

end Parser

namespace Buffer

open RavenLang.Parser (Chain)

/-! ## Expressions -/

mutual

def expression (self : Buffer) : Parser Expr := self |>.assignment
partial_fixpoint

/-- An object or an expression of a tighter level, or an assignment to it, nested to the right. -/
def assignment (self : Buffer) : Parser Expr := do
  let target ← self |>.object
  if ← self.isAt .equals then
    let _ ← self.next
    let value ← self |>.assignment
    return .assign (target.span.merge value.span) target value
  return target
partial_fixpoint

def object (self : Buffer) : Parser Expr := do
  if ← self.isAt .openBrace then
    let start ← self.next
    let read ← self |>.entries #[]
    let close ← self.expect .closeBrace Expected.objectEnd
    return .object (start.span.merge close.span) read.toList
  else self |>.chain .sum
partial_fixpoint

def entries (self : Buffer) (read : Array Entry) : Parser (Array Entry) := do
  let t ← self.peek
  if t.kind ≠ .endOfInput && t.kind ≠ .closeBrace then self |>.entries (read.push (← self |>.entry))
  else return read
partial_fixpoint

/-- An entry and the comma after it, which only the last entry can do without. A key
alone is followed by a comma or the end of the object. -/
def entry (self : Buffer) : Parser Entry := do
  let key ← self.expect .identifier Expected.key
  if ← self.isAt .comma then
    let _ ← self.next
    return .shorthand key.span key.text
  else if ← self.isAt .closeBrace then return .shorthand key.span key.text
  else
    let _ ← self.expect .colon Expected.keyColon
    let value ← self |>.expression
    if !(← self.isAt .closeBrace) then
      let _ ← self.expect .comma Expected.entryEnd
    return .pair (key.span.merge value.span) key.text value
partial_fixpoint

def chain (self : Buffer) (c : Chain) : Parser Expr := do self |>.operands c (← self |>.tighter c)
partial_fixpoint

def tighter (self : Buffer) : Chain → Parser Expr
  | .sum => self |>.chain .product
  | .product => self |>.postfixed
partial_fixpoint

def operands (self : Buffer) (c : Chain) (left : Expr) : Parser Expr := do
  if (← self.peek).isOperator c.operators then self |>.operands c (← self |>.operand c left)
  else return left
partial_fixpoint

def operand (self : Buffer) (c : Chain) (left : Expr) : Parser Expr := do
  let operator ← self.next
  let right ← self |>.tighter c
  return .binary (left.span.merge right.span) operator.text left right
partial_fixpoint

/-- A primary and the fields, keys and arguments behind it. -/
def postfixed (self : Buffer) : Parser Expr := do self |>.suffixes (← self |>.primary)
partial_fixpoint

def suffixes (self : Buffer) (e : Expr) : Parser Expr := do
  if Grammar.startsSuffix (← self.peek) then self |>.suffixes (← self |>.suffix e)
  else return e
partial_fixpoint

def suffix (self : Buffer) (e : Expr) : Parser Expr := do
  match (← self.peek).kind with
  | .dot =>
    let _ ← self.next
    let name ← self.expect .identifier Expected.propertyName
    return .member (e.span.merge name.span) false e (.name name.span name.text)
  | .openBracket =>
    let _ ← self.next
    let key ← self |>.expression
    let close ← self.expect .closeBracket Expected.memberEnd
    return .member (e.span.merge close.span) true e key
  | _ =>
    let (values, span) ← self |>.arguments
    return .call (e.span.merge span) e values
partial_fixpoint

/-- Arguments in parentheses, with the span of the parentheses. -/
def arguments (self : Buffer) : Parser (List Expr × Span) := do
  let start ← self.expect .openParen Expected.argumentsStart
  let read ← if ← self.isAt .closeParen then pure #[] else self |>.furtherArguments #[← self |>.assignment]
  let close ← self.expect .closeParen Expected.argumentsEnd
  return (read.toList, start.span.merge close.span)
partial_fixpoint

def furtherArguments (self : Buffer) (read : Array Expr) : Parser (Array Expr) := do
  if (← self.peek).kind = .comma then self |>.furtherArguments (read.push (← self |>.nextArgument))
  else return read
partial_fixpoint

def nextArgument (self : Buffer) : Parser Expr := do
  let _ ← self.next
  self |>.assignment
partial_fixpoint

/-- A name, a number, a string or a parenthesised expression, which takes the
place of its parentheses. -/
def primary (self : Buffer) : Parser Expr := do
  let t ← self.next
  match t.kind with
  | .identifier => return .name t.span t.text
  | .number =>
    match Number.read? t.text with
    | some x => return .number t.span x
    | none => throw (t.unexpected Expected.numeral)
  | .string => return .string t.span t.text
  | .openParen =>
    let inner ← self |>.expression
    let close ← self.expect .closeParen Expected.groupEnd
    return inner.withSpan (t.span.merge close.span)
  | _ => throw (t.unexpected Expected.expression)
partial_fixpoint

end

/-! ## Statements -/

/-- `let` or `const`. A constant needs a value. -/
def declaration (self : Buffer) : Parser Stmt := do
  let keyword ← self.next
  let constant := keyword.kind = .constWord
  let name ← self.expect .identifier Expected.variableName
  if ← self.isAt .semicolon then
    let span := keyword.span.merge (← self.next).span
    if constant then throw (.missingInitializer span)
    else return .declare span constant name.text none
  else
    let _ ← self.expect .equals Expected.initializer
    let value ← self.expression
    let last ← self.expect .semicolon Expected.declarationEnd
    return .declare (keyword.span.merge last.span) constant name.text (some value)

def expressionStatement (self : Buffer) : Parser Stmt := do
  let e ← self.expression
  if ← self.isAt .semicolon then return .expr (e.span.merge (← self.next).span) e
  else return .expr e.span e

mutual

def statement (self : Buffer) : Parser Stmt := do
  match (← self.peek).kind with
  | .letWord | .constWord => self.declaration
  | .fnWord => self |>.functionDeclaration
  | _ => self.expressionStatement
partial_fixpoint

def functionDeclaration (self : Buffer) : Parser Stmt := do
  let keyword ← self.next
  let name ← self.expect .identifier Expected.functionName
  let (values, _) ← self.arguments
  let parameters ← Grammar.parameterNames values
  let _ ← self.expect .openBrace Expected.bodyStart
  let read ← self |>.body #[]
  let close ← self.expect .closeBrace Expected.bodyEnd
  return .function (keyword.span.merge close.span) name.text parameters read.toList
partial_fixpoint

def body (self : Buffer) (read : Array Stmt) : Parser (Array Stmt) := do
  let t ← self.peek
  if t.kind ≠ .endOfInput && t.kind ≠ .closeBrace then self |>.body (read.push (← self |>.statement))
  else return read
partial_fixpoint

end

def statements (self : Buffer) (read : Array Stmt) : Parser (Array Stmt) := do
  if (← self.peek).kind ≠ .endOfInput then self |>.statements (read.push (← self.statement))
  else return read
partial_fixpoint

def program (self : Buffer) : Parser Program := return (← self.statements #[]).toList

end Buffer

def Parser.read? (ts : List Token) : Option (Except SyntaxFault Program) :=
  ((Buffer.of ts).program.outcome 0).map Prod.fst

end RavenLang
