import RavenLang.Evaluation

/-!
# Parts of an evaluation

An evaluation runs parts of itself one after the other: operands before their
operator, arguments before the call. What is going on at some moment of it is a
task, begun by the task around it in the store that the parts before it left.
-/

namespace RavenLang

/-- Something to be evaluated, in a scope if it is a piece of a program. -/
inductive Task where
  | expr (scope : ScopeId) (e : Expr)
  | exprs (scope : ScopeId) (es : List Expr)
  | entry (scope : ScopeId) (e : Entry)
  | entries (scope : ScopeId) (es : List Entry)
  | statement (scope : ScopeId) (s : Stmt)
  | statements (scope : ScopeId) (last : Value) (ss : List Stmt)
  | parameters (scope : ScopeId) (span : Span) (ps : List String) (arguments : List Value)
  | call (id : FunctionId) (arguments : List Value) (span : Span)

section
variable (calls : Calls)

/-- The store behind a task, whether it ends well or not. -/
def Task.after (st : Store) : Task → Store
  | .expr scope e => ((e.eval calls scope).perform st).2
  | .exprs scope es => ((Expr.evalAll calls scope es).perform st).2
  | .entry scope e => ((e.eval calls scope).perform st).2
  | .entries scope es => ((Entry.evalAll calls scope es).perform st).2
  | .statement scope s => ((s.eval calls scope).perform st).2
  | .statements scope last ss => ((Program.evalFrom calls scope last ss).perform st).2
  | .parameters scope span ps arguments => ((Action.bindParameters scope span ps arguments).perform st).2
  | .call id arguments span => ((calls.function id arguments span).perform st).2

/-- `Begins calls task st part st'`: in its course, `task` begun in `st` begins `part` in
`st'`. What a call begins is not among it, since that is up to `calls`. -/
inductive Begins : Task → Store → Task → Store → Prop
  -- expressions
  | entries {scope s es st} : Begins (.expr scope (.object s es)) st (.entries scope es) st
  | left {scope s op l r st} : Begins (.expr scope (.binary s op l r)) st (.expr scope l) st
  | right {scope s op l r st x st'} : (l.eval calls scope).perform st = (.ok x, st') →
      Begins (.expr scope (.binary s op l r)) st (.expr scope r) st'
  | assigned {scope s t n v st} : t.name? = some n →
      Begins (.expr scope (.assign s t v)) st (.expr scope v) st
  | arguments {scope s f as st} : Begins (.expr scope (.call s f as)) st (.exprs scope as) st
  | callee {scope s f as st xs st'} : (Expr.evalAll calls scope as).perform st = (.ok xs, st') →
      Begins (.expr scope (.call s f as)) st (.expr scope f) st'
  | called {scope s f as st xs st₁ id st'} : (Expr.evalAll calls scope as).perform st = (.ok xs, st₁) →
      (f.eval calls scope).perform st₁ = (.ok (.function id), st') →
      Begins (.expr scope (.call s f as)) st (.call id xs s) st'
  | object {scope s c o p st} : Begins (.expr scope (.member s c o p)) st (.expr scope o) st
  | key {scope s c o p st x st'} : (o.eval calls scope).perform st = (.ok x, st') →
      (if c then none else p.name?) = none → Begins (.expr scope (.member s c o p)) st (.expr scope p) st'
  -- lists
  | value {scope s k v st} : Begins (.entry scope (.pair s k v)) st (.expr scope v) st
  | firstEntry {scope e es st} : Begins (.entries scope (e :: es)) st (.entry scope e) st
  | otherEntries {scope e es st x st'} : (e.eval calls scope).perform st = (.ok x, st') →
      Begins (.entries scope (e :: es)) st (.entries scope es) st'
  | firstExpr {scope e es st} : Begins (.exprs scope (e :: es)) st (.expr scope e) st
  | otherExprs {scope e es st x st'} : (e.eval calls scope).perform st = (.ok x, st') →
      Begins (.exprs scope (e :: es)) st (.exprs scope es) st'
  -- statements
  | initial {scope s c n e st} : Begins (.statement scope (.declare s c n (some e))) st (.expr scope e) st
  | expression {scope s e st} : Begins (.statement scope (.expr s e)) st (.expr scope e) st
  | firstStatement {scope last s ss st} : Begins (.statements scope last (s :: ss)) st (.statement scope s) st
  | otherStatements {scope last s ss st x st'} : (s.eval calls scope).perform st = (.ok x, st') →
      Begins (.statements scope last (s :: ss)) st (.statements scope x ss) st'
  -- parameters
  | otherParameters {scope s p ps xs st u st'} :
      (Action.declare scope p ⟨xs.headD .null, false⟩ s).perform st = (.ok u, st') →
      Begins (.parameters scope s (p :: ps) xs) st (.parameters scope s ps xs.tail) st'

end

/-- `During host d task st d' part st'`: while `task` runs from `st` with calls nested at
most `d` deep, `part` is begun in `st'`, at any depth of calls. -/
inductive During (host : Host) (d : Nat) (task : Task) (st : Store) : Nat → Task → Store → Prop
  | itself : During host d task st d task st
  | part {d' task' st' part st''} : During host d task st d' task' st' →
      Begins (host.calls d') task' st' part st'' →
      During host d task st d' part st''
  | parameters {d' id xs span st' f} : During host d task st (d' + 1) (.call id xs span) st' →
      st'.functions[id]? = some f →
      During host d task st d' (.parameters st'.scopes.size span f.parameters xs)
        (st'.addScope (some f.scope)).2
  | body {d' id xs span st' f u st''} : During host d task st (d' + 1) (.call id xs span) st' →
      st'.functions[id]? = some f →
      (Action.bindParameters st'.scopes.size span f.parameters xs).perform (st'.addScope (some f.scope)).2 =
        (.ok u, st'') →
      During host d task st d' (.statements st'.scopes.size .null f.body) st''

end RavenLang
