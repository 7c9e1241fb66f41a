import RavenLang.Grammar.Descent
import RavenLang.Grammar.Reading

/-!
# Reading expressions

The levels of an expression, tightest first: primary, call and member suffixes,
`* / % ^`, `+ -`, object literal, assignment. Each level is written over a reader
for whole expressions on shorter lists, and `expression` ties the knot.
-/

namespace RavenLang.Grammar

variable {n : Nat} (stop : Span) (sub : Reader Expr n)

/-- A name, a number, a string or a parenthesised expression, which takes the
place of its parentheses. -/
def primary (ts : List Token) (h : ts.length ≤ n) : Reading Expr ts.length :=
  match ts with
  | [] => .error (unexpected stop Expected.expression [])
  | t :: ts => do
    match t.kind with
    | .identifier => return ⟨.name t.span t.text, ts, length_lt_cons t ts⟩
    | .string => return ⟨.string t.span t.text, ts, length_lt_cons t ts⟩
    | .number =>
      match Number.read? t.text with
      | some x => return ⟨.number t.span x, ts, length_lt_cons t ts⟩
      | none => throw (unexpected stop Expected.numeral (t :: ts))
    | .openParen =>
      let inner ← sub ts h
      let close ← token stop .closeParen Expected.groupEnd inner.rest
      let value := inner.value.withSpan (t.span.merge close.value.span)
      return (inner.upTo close ()).behind t value
    | _ => throw (unexpected stop Expected.expression (t :: ts))

/-! ## Suffixes -/

def nextArgument : Reader Expr n := fun ts h =>
  match ts with
  | [] => .error (unexpected stop Expected.expression [])
  | t :: ts => do
    let argument ← sub ts (Nat.lt_of_succ_lt h)
    return argument.behind t argument.value

def argumentList (ts : List Token) (h : ts.length < n) : Reading (List Expr) ts.length := do
  let first ← sub ts h
  let others ← many (·.kind = .comma) (nextArgument stop sub) first.rest (Nat.lt_trans first.rest_lt h)
  return ⟨first.value :: others.values, others.rest, Nat.lt_of_le_of_lt others.rest_le first.rest_lt⟩

def arguments (ts : List Token) (h : ts.length ≤ n) : Reading (List Expr × Span) ts.length := do
  let start ← token stop .openParen Expected.argumentsStart ts
  match accept .closeParen start.rest with
  | some close =>
    return start.upTo close ([], start.value.span.merge close.value.span)
  | none =>
    let list ← argumentList stop sub start.rest (Nat.lt_of_lt_of_le start.rest_lt h)
    let close ← token stop .closeParen Expected.argumentsEnd list.rest
    return start.upTo (list.upTo close ()) (list.value, start.value.span.merge close.value.span)

inductive Suffix where
  | field (name : Token)
  | index (key : Expr) (close : Span)
  | call (arguments : List Expr) (span : Span)

def Suffix.apply (e : Expr) : Suffix → Expr
  | field name => .member (e.span.merge name.span) false e (.name name.span name.text)
  | index key close => .member (e.span.merge close) true e key
  | call arguments span => .call (e.span.merge span) e arguments

def suffix : Reader Suffix n := fun ts h =>
  match ts with
  | [] => .error (unexpected stop Expected.expression [])
  | t :: ts => do
    if t.kind = .dot then
      let name ← token stop .identifier Expected.propertyName ts
      return name.behind t (.field name.value)
    else if t.kind = .openBracket then
      let key ← sub ts (Nat.lt_of_succ_lt h)
      let close ← token stop .closeBracket Expected.memberEnd key.rest
      return (key.upTo close ()).behind t (.index key.value close.value.span)
    else
      let list ← arguments stop sub (t :: ts) (Nat.le_of_lt h)
      return list.map fun (values, span) => .call values span

def postfixed (ts : List Token) (h : ts.length ≤ n) : Reading Expr ts.length := do
  let first ← primary stop sub ts h
  let suffixes ← many startsSuffix (suffix stop sub) first.rest (Nat.lt_of_lt_of_le first.rest_lt h)
  return ⟨suffixes.values.foldl Suffix.apply first.value, suffixes.rest,
    Nat.lt_of_le_of_lt suffixes.rest_le first.rest_lt⟩

/-! ## Operators -/

def joined (left : Expr) (right : String × Expr) : Expr :=
  .binary (left.span.merge right.2.span) right.1 left right.2

def operand (inner : ∀ ts : List Token, ts.length ≤ n → Reading Expr ts.length) :
    Reader (String × Expr) n := fun ts h =>
  match ts with
  | [] => .error (unexpected stop Expected.expression [])
  | t :: ts => do
    let right ← inner ts (Nat.le_of_lt (Nat.lt_of_succ_lt h))
    return right.behind t (t.text, right.value)

def chain (operators : List String)
    (inner : ∀ ts : List Token, ts.length ≤ n → Reading Expr ts.length)
    (ts : List Token) (h : ts.length ≤ n) : Reading Expr ts.length := do
  let first ← inner ts h
  let others ← many (·.isOperator operators) (operand stop inner) first.rest
    (Nat.lt_of_lt_of_le first.rest_lt h)
  return ⟨others.values.foldl joined first.value, others.rest,
    Nat.lt_of_le_of_lt others.rest_le first.rest_lt⟩

def multiplicative (ts : List Token) (h : ts.length ≤ n) : Reading Expr ts.length :=
  chain stop ["*", "/", "%", "^"] (postfixed stop sub) ts h

def additive (ts : List Token) (h : ts.length ≤ n) : Reading Expr ts.length :=
  chain stop ["+", "-"] (multiplicative stop sub) ts h

/-! ## Objects and assignment -/

/-- What follows the colon of an entry: a value, and a comma unless the object ends. -/
def entryValue (key : Token) (ts : List Token) (h : ts.length < n) : Reading Entry ts.length := do
  let value ← sub ts h
  let read : Entry := .pair (key.span.merge value.value.span) key.text value.value
  if startsWith .closeBrace value.rest then return value.map fun _ => read
  else
    let comma ← token stop .comma Expected.entryEnd value.rest
    return value.upTo comma read

/-- An entry and the comma after it, which only the last entry can do without. A key
alone is followed by a comma or the end of the object. -/
def entry : Reader Entry n := fun ts h => do
  let key ← token stop .identifier Expected.key ts
  let bare : Entry := .shorthand key.value.span key.value.text
  match accept .comma key.rest with
  | some comma => return key.upTo comma bare
  | none =>
    if startsWith .closeBrace key.rest then return key.map fun _ => bare
    else
      let colon ← token stop .colon Expected.keyColon key.rest
      let pair ← entryValue stop sub key.value colon.rest
        (Nat.lt_trans (Nat.lt_trans colon.rest_lt key.rest_lt) h)
      return key.upTo (colon.upTo pair ()) pair.value

def object (ts : List Token) (h : ts.length ≤ n) : Reading Expr ts.length :=
  match ts with
  | [] => additive stop sub [] h
  | t :: ts =>
    if t.kind = .openBrace then do
      let entries ← many (·.kind ≠ .closeBrace) (entry stop sub) ts h
      let close ← token stop .closeBrace Expected.objectEnd entries.rest
      return ⟨.object (t.span.merge close.value.span) entries.values, close.rest,
        Nat.lt_succ_of_lt (Nat.lt_of_lt_of_le close.rest_lt entries.rest_le)⟩
    else additive stop sub (t :: ts) h

/-- An expression of the next level, or an assignment to it, nested to the right. -/
def assignment (ts : List Token) (h : ts.length ≤ n) : Reading Expr ts.length := do
  let target ← object stop sub ts h
  match accept .equals target.rest with
  | none => return target
  | some equals =>
    let value ← sub equals.rest
      (Nat.lt_of_lt_of_le (Nat.lt_trans equals.rest_lt target.rest_lt) h)
    return target.upTo (equals.upTo value ())
      (.assign (target.value.span.merge value.value.span) target.value value.value)

def expression (ts : List Token) : Reading Expr ts.length :=
  assignment stop (fun us _ => expression us) ts (Nat.le_refl _)
termination_by ts.length

end RavenLang.Grammar
