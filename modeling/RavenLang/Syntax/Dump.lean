import RavenLang.Number.Decimal
import RavenLang.Syntax
import RavenLang.Text.Escape

/-!
# Dumps

The whole of a tree as text, spans included, for debugging.
-/

namespace RavenLang

namespace Dump

def record (name : String) (fields : List (String × String)) : String :=
  name ++ " \x7b " ++ ", ".intercalate (fields.map fun (k, v) => k ++ ": " ++ v) ++ " \x7d"

def list (items : List String) : String := "[" ++ ", ".intercalate items ++ "]"

def option : Option String → String
  | some s => "Some(" ++ s ++ ")"
  | none => "None"

def boolean (b : Bool) : String := if b then "true" else "false"

def span (s : Span) : String :=
  record "Span" [("start", toString s.start), ("end", toString s.stop)]

def node (name kind : String) (s : Span) : String := record name [("kind", kind), ("span", span s)]

end Dump

open Dump in
mutual

def Expr.dump : Expr → String
  | .name s n => node "Expr" ("Identifier(" ++ Text.quoted n ++ ")") s
  | .number s x => node "Expr" ("NumericLiteral(" ++ Number.write .literal x ++ ")") s
  | .string s t => node "Expr" ("StringLiteral(" ++ Text.quoted t ++ ")") s
  | .object s es => node "Expr" ("ObjectLiteral(" ++ list (Entry.dumps es) ++ ")") s
  | .binary s op l r =>
    node "Expr" (record "Binary" [("left", l.dump), ("operator", Text.quoted op), ("right", r.dump)]) s
  | .assign s t v => node "Expr" (record "Assignment" [("assignee", t.dump), ("value", v.dump)]) s
  | .call s f as =>
    node "Expr" (record "Call" [("caller", f.dump), ("arguments", list (Expr.dumps as))]) s
  | .member s computed o p =>
    node "Expr"
      (record "Member" [("object", o.dump), ("property", p.dump), ("computed", boolean computed)]) s

def Entry.dump : Entry → String
  | .shorthand s k => record "Property" [("key", Text.quoted k), ("value", option none), ("span", span s)]
  | .pair s k v =>
    record "Property" [("key", Text.quoted k), ("value", option (some v.dump)), ("span", span s)]

def Entry.dumps : List Entry → List String
  | [] => []
  | e :: es => e.dump :: Entry.dumps es

def Expr.dumps : List Expr → List String
  | [] => []
  | e :: es => e.dump :: Expr.dumps es

end

open Dump in
mutual

def Stmt.dump : Stmt → String
  | .declare s constant name value =>
    node "Stmt" (record "VarDeclaration" [("constant", boolean constant),
      ("identifier", Text.quoted name), ("value", option (value.map Expr.dump))]) s
  | .function s name parameters body =>
    node "Stmt" (record "FunctionDeclaration" [("name", Text.quoted name),
      ("parameters", list (parameters.map Text.quoted)), ("body", list (Stmt.dumps body))]) s
  | .expr s e => node "Stmt" ("Expression(" ++ e.dump ++ ")") s

def Stmt.dumps : List Stmt → List String
  | [] => []
  | s :: ss => s.dump :: Stmt.dumps ss

end

end RavenLang
